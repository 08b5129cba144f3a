import EkaCI.Forge.Schema
import EkaCI.Lib.Hex
import EkaCI.Lib.Json

/-! Which webhooks are taken for what they say. GitHub and Gitea sign the body, GitLab
sends the secret itself; without a secret everything is let in, or nothing. -/

namespace EkaCI

open Lib

def utf8 (text : String) : List UInt8 := text.toUTF8.data.toList

/-- The bytes that a header may have: all but the control characters, with tabs. -/
def IsHeaderByte (byte : UInt8) : Prop := 32 ≤ byte.toNat ∧ byte.toNat ≠ 127 ∨ byte.toNat = 9

structure HeaderValue where
  bytes : List UInt8
  allowed : ∀ byte ∈ bytes, IsHeaderByte byte

def isVisibleAscii (byte : UInt8) : Bool := 32 ≤ byte.toNat ∧ byte.toNat < 127 ∨ byte.toNat = 9

/-- `none` unless all is visible ASCII. -/
def HeaderValue.toStr (value : HeaderValue) : Option (List UInt8) :=
  if value.bytes.all isVisibleAscii then some value.bytes else none

structure WebhookRequest where
  /-- The names are in lower case. -/
  headers : List (String × HeaderValue)
  body : List UInt8

/-- The first value of a header. -/
def WebhookRequest.get (request : WebhookRequest) (name : String) : Option HeaderValue :=
  (request.headers.find? (·.1 = name)).map Prod.snd

structure WebhookConfig where
  webhookSecret : Option String
  allowInsecureWebhooks : Bool
  /-- Whether the services are there. -/
  gitlabSender : Bool
  giteaSender : Bool

/-- What is computed elsewhere: the signature of a body, its JSON, and the events and
installations of GitHub. -/
structure WebhookCodecs (Payload Installation : Type) where
  hmac : List UInt8 → List UInt8 → List UInt8
  fromSlice : List UInt8 → Option Json
  readPayload : Json → Option Payload
  readInstallation : Json → Option Installation

inductive SignatureError where
  | missingPrefix
  | hex (error : Hex.FromHexError)
  | mismatch

def signaturePrefix : List UInt8 := utf8 "sha256="

inductive WebhookMetric where
  | signatureFailure (label : String)
  | signatureVerified

/-- What is handed to the handler of a forge. -/
inductive WebhookDelivery (Payload Installation : Type) where
  | gitHub (payload : Payload) (repositoryInfo : Option (String × String)) (installation : Option Installation)
  | gitLab (eventType : List UInt8) (payload : Json)
  | gitea (eventType : List UInt8) (payload : Json)

structure WebhookResponse (Payload Installation : Type) where
  status : Nat
  text : String
  metric : Option WebhookMetric
  delivered : Option (WebhookDelivery Payload Installation)

namespace WebhookCodecs

variable {Payload Installation : Type} (codecs : WebhookCodecs Payload Installation) (config : WebhookConfig)
  (request : WebhookRequest)

def verifyWebhookSignature (secret signatureHeader payload : List UInt8) : Except SignatureError Unit :=
  if signaturePrefix <+: signatureHeader then
    match Hex.decode (signatureHeader.drop signaturePrefix.length) with
    | .error error => .error (.hex error)
    | .ok expected => if expected = codecs.hmac secret payload then .ok () else .error .mismatch
  else .error .missingPrefix

def refused (status : Nat) (text : String) (metric : Option WebhookMetric) : WebhookResponse Payload Installation :=
  ⟨status, text, metric, none⟩

def unauthorized (label : String) : WebhookResponse Payload Installation :=
  refused 401 "" (some (.signatureFailure label))

/-- The gate of GitHub and of Gitea, which name the header. -/
def checkSignature (header : String) : Except (WebhookResponse Payload Installation) (Option WebhookMetric) :=
  match config.webhookSecret, config.allowInsecureWebhooks with
  | some secret, _ =>
    match request.get header with
    | none => .error (unauthorized "missing_header")
    | some value =>
      match value.toStr with
      | none => .error (unauthorized "invalid_header")
      | some signature =>
        match codecs.verifyWebhookSignature (utf8 secret) signature request.body with
        | .error _ => .error (unauthorized "bad_signature")
        | .ok () => .ok (some .signatureVerified)
  | none, true => .ok (some (.signatureFailure "unsigned_insecure_mode"))
  | none, false => .error (refused 503 "Webhook endpoint not configured" none)

/-- The gate of GitLab, which counts nothing. -/
def checkToken : Except (WebhookResponse Payload Installation) (Option WebhookMetric) :=
  match config.webhookSecret, config.allowInsecureWebhooks with
  | some secret, _ =>
    match (request.get "x-gitlab-token").bind HeaderValue.toStr with
    | none => .error (refused 401 "" none)
    | some token => if token ≠ utf8 secret then .error (refused 401 "" none) else .ok none
  | none, true => .ok none
  | none, false => .error (refused 503 "Webhook endpoint not configured" none)

/-- The owner's login and the name of the repository. -/
def repositoryInfo (json : Json) : Option (String × String) := do
  let repo ← json.get "repository"
  let owner ← (← (← repo.get "owner").get "login").getStr
  let name ← (← repo.get "name").getStr
  return (owner, name)

def handleGithubWebhook : WebhookResponse Payload Installation :=
  match codecs.checkSignature config request "x-hub-signature-256" with
  | .error response => response
  | .ok metric =>
    match codecs.fromSlice request.body with
    | none => refused 400 "Invalid JSON payload" metric
    | some json =>
      match codecs.readPayload json with
      | none => refused 400 "Invalid webhook event payload" metric
      | some payload =>
        ⟨204, "", metric,
          some (.gitHub payload (repositoryInfo json) ((json.get "installation").bind codecs.readInstallation))⟩

/-- What comes after the gate on GitLab and Gitea. -/
def forward (eventHeader : String) (sender : Bool)
    (deliver : List UInt8 → Json → WebhookDelivery Payload Installation) (metric : Option WebhookMetric) :
    WebhookResponse Payload Installation :=
  match (request.get eventHeader).bind HeaderValue.toStr with
  | none => refused 400 "Missing event type header" metric
  | some eventType =>
    match codecs.fromSlice request.body with
    | none => refused 400 "Invalid JSON payload" metric
    | some payload => ⟨204, "", metric, if sender then some (deliver eventType payload) else none⟩

def handleGitlabWebhook : WebhookResponse Payload Installation :=
  match (checkToken config request : Except (WebhookResponse Payload Installation) _) with
  | .error response => response
  | .ok metric => codecs.forward request "x-gitlab-event" config.gitlabSender .gitLab metric

def handleGiteaWebhook : WebhookResponse Payload Installation :=
  match codecs.checkSignature config request "x-gitea-signature" with
  | .error response => response
  | .ok metric => codecs.forward request "x-gitea-event" config.giteaSender .gitea metric

def handleWebhook : Forge → WebhookResponse Payload Installation
  | .gitHub => codecs.handleGithubWebhook config request
  | .gitLab => codecs.handleGitlabWebhook config request
  | .gitea => codecs.handleGiteaWebhook config request

end WebhookCodecs

/-- The signature in hexadecimal, in either case, after its name. -/
def Prefixed (mac bytes : List UInt8) : Prop := ∃ hex, bytes = signaturePrefix ++ hex ∧ hex.map Hex.lower = Hex.encode mac

namespace Forge

def proofHeader : Forge → String
  | .gitHub => "x-hub-signature-256"
  | .gitLab => "x-gitlab-token"
  | .gitea => "x-gitea-signature"

def eventHeader : Forge → Option String
  | .gitHub => none
  | .gitLab => some "x-gitlab-event"
  | .gitea => some "x-gitea-event"

end Forge

/-- The requests do not differ in what a forge proves itself with, the event and the body. -/
structure WebhookRequest.SameSeen (forge : Forge) (first second : WebhookRequest) : Prop where
  body : first.body = second.body
  proved : first.get forge.proofHeader = second.get forge.proofHeader
  event : ∀ header ∈ forge.eventHeader, first.get header = second.get header

namespace WebhookCodecs

variable {Payload Installation : Type} (codecs : WebhookCodecs Payload Installation) (config : WebhookConfig)
  (request : WebhookRequest)

def mac (secret : String) : List UInt8 := codecs.hmac (utf8 secret) request.body

/-- Gitea does not name the signature as GitHub does, and writes it in lower case. -/
def Proves (secret : String) (bytes : List UInt8) : Forge → Prop
  | .gitHub => Prefixed (codecs.mac request secret) bytes
  | .gitLab => bytes = utf8 secret
  | .gitea => bytes = Hex.encode (codecs.mac request secret)

def Authentic (forge : Forge) : Prop :=
  match config.webhookSecret with
  | some secret => ∃ value, request.get forge.proofHeader = some value ∧ codecs.Proves request secret value.bytes forge
  | none => config.allowInsecureWebhooks = true

/-- What there is to hand over, if all can be read and the service is there. -/
def delivery : Forge → Option (WebhookDelivery Payload Installation)
  | .gitHub => do
    let json ← codecs.fromSlice request.body
    let payload ← codecs.readPayload json
    return .gitHub payload (repositoryInfo json) ((json.get "installation").bind codecs.readInstallation)
  | .gitLab => do
    let eventType ← (request.get "x-gitlab-event").bind HeaderValue.toStr
    let payload ← codecs.fromSlice request.body
    if config.gitlabSender then some (.gitLab eventType payload) else none
  | .gitea => do
    let eventType ← (request.get "x-gitea-event").bind HeaderValue.toStr
    let payload ← codecs.fromSlice request.body
    if config.giteaSender then some (.gitea eventType payload) else none

/-- What is authentic is handed over, nothing else is, and nothing else is looked at. -/
structure HandlesAuthentic (forge : Forge) : Prop where
  delivers : ∀ handed, (codecs.handleWebhook config request forge).delivered = some handed ↔
    codecs.Authentic config request forge ∧ codecs.delivery config request forge = some handed
  blind : ∀ other : WebhookRequest, other.SameSeen forge request →
    codecs.handleWebhook config other forge = codecs.handleWebhook config request forge

/-- GitLab's token is not the secret, or is visible ASCII; Gitea's signature is not that
of the body, in neither form. -/
def FormsAgree (secret : String) (bytes : List UInt8) : Forge → Prop
  | .gitHub => True
  | .gitLab => bytes = utf8 secret → bytes.all isVisibleAscii = true
  | .gitea => bytes ≠ Hex.encode (codecs.mac request secret) ∧ ¬ Prefixed (codecs.mac request secret) bytes

/-- The forms matter where a secret is set and there is something to hand over. -/
def FormatsAgree (forge : Forge) : Prop :=
  match config.webhookSecret, request.get forge.proofHeader with
  | some secret, some value =>
    (codecs.delivery config request forge).isSome = true → codecs.FormsAgree request secret value.bytes forge
  | _, _ => True

end WebhookCodecs

theorem prefixed_iff {mac bytes : List UInt8} : Prefixed mac bytes ↔
    signaturePrefix <+: bytes ∧ Hex.decode (bytes.drop signaturePrefix.length) = .ok mac := by
  rw [Hex.decode_eq_ok_iff]
  constructor
  · rintro ⟨hex, rfl, same⟩
    rw [List.drop_left]
    exact ⟨List.prefix_append _ _, same⟩
  · rintro ⟨⟨hex, rfl⟩, same⟩
    rw [List.drop_left] at same
    exact ⟨hex, rfl, same⟩

theorem Prefixed.visible {mac bytes : List UInt8} (prefixed : Prefixed mac bytes) : bytes.all isVisibleAscii = true := by
  obtain ⟨hex, rfl, same⟩ := prefixed
  have visible : signaturePrefix.all isVisibleAscii = true := by decide
  rw [List.all_append, visible, Bool.true_and, List.all_eq_true]
  intro c member
  have written : Hex.lower c ∈ Hex.encode mac := same ▸ List.mem_map_of_mem member
  have bounds := Hex.mem_encode written
  rw [Hex.toNat_lower] at bounds
  rw [isVisibleAscii, decide_eq_true_eq]
  split at bounds <;> omega

theorem not_prefixed_encode (mac : List UInt8) : ¬ Prefixed mac (Hex.encode mac) := by
  rintro ⟨hex, same, -⟩
  have first : (115 : UInt8) ∈ Hex.encode mac := same ▸ List.mem_append_left _ (by decide)
  have bounds := Hex.mem_encode first
  exact absurd bounds.2 (by decide)

theorem HeaderValue.toStr_eq_some {value : HeaderValue} {text : List UInt8} :
    value.toStr = some text ↔ value.bytes = text ∧ value.bytes.all isVisibleAscii = true := by
  rw [toStr]
  split
  · rename_i visible
    rw [Option.some.injEq]
    exact ⟨fun same => ⟨same, visible⟩, fun both => both.1⟩
  · rename_i hidden
    exact iff_of_false nofun fun both => hidden both.2

namespace WebhookCodecs

variable {Payload Installation : Type} {codecs : WebhookCodecs Payload Installation} {config : WebhookConfig}
  {request : WebhookRequest}

theorem verifyWebhookSignature_eq_ok {secret signature payload : List UInt8} :
    codecs.verifyWebhookSignature secret signature payload = .ok () ↔ Prefixed (codecs.hmac secret payload) signature := by
  rw [verifyWebhookSignature, prefixed_iff]
  split
  · rename_i named
    cases decoded : Hex.decode (signature.drop signaturePrefix.length) with
    | error error => exact iff_of_false nofun nofun
    | ok expected =>
      dsimp only
      rw [Except.ok.injEq]
      split
      · rename_i same
        exact iff_of_true rfl ⟨named, same⟩
      · rename_i different
        exact iff_of_false nofun fun both => different both.2
  · rename_i unnamed
    exact iff_of_false nofun fun both => unnamed both.1

theorem checkSignature_admits {header : String} :
    (∃ metric, codecs.checkSignature config request header = .ok metric) ↔
      match config.webhookSecret with
      | some secret => ∃ value, request.get header = some value ∧ Prefixed (codecs.mac request secret) value.bytes
      | none => config.allowInsecureWebhooks = true := by
  rw [checkSignature]
  cases config.webhookSecret with
  | none => cases config.allowInsecureWebhooks <;> simp
  | some secret =>
    dsimp only
    cases request.get header with
    | none => simp
    | some value =>
      simp only [Option.some.injEq, exists_eq_left']
      cases shown : value.toStr with
      | none =>
        apply iff_of_false (by simp)
        intro prefixed
        have text := HeaderValue.toStr_eq_some.mpr ⟨rfl, prefixed.visible⟩
        rw [shown] at text
        cases text
      | some signature =>
        obtain ⟨rfl, -⟩ := HeaderValue.toStr_eq_some.mp shown
        rw [mac, ← verifyWebhookSignature_eq_ok]
        dsimp only
        cases codecs.verifyWebhookSignature (utf8 secret) value.bytes request.body with
        | error error => simp
        | ok verified => simp

theorem checkToken_admits :
    (∃ metric, (checkToken config request : Except (WebhookResponse Payload Installation) _) = .ok metric) ↔
      match config.webhookSecret with
      | some secret => ∃ value, request.get "x-gitlab-token" = some value ∧ value.bytes = utf8 secret ∧
          value.bytes.all isVisibleAscii = true
      | none => config.allowInsecureWebhooks = true := by
  rw [checkToken]
  cases config.webhookSecret with
  | none => cases config.allowInsecureWebhooks <;> simp
  | some secret =>
    dsimp only
    cases request.get "x-gitlab-token" with
    | none => simp
    | some value =>
      simp only [Option.some.injEq, exists_eq_left', Option.bind_some]
      rw [← HeaderValue.toStr_eq_some]
      cases value.toStr with
      | none => simp
      | some token => by_cases same : token = utf8 secret <;> simp [same]

/-- A gate that has been passed. -/
def Admits (codecs : WebhookCodecs Payload Installation) (config : WebhookConfig) (request : WebhookRequest) :
    Forge → Prop
  | .gitHub => ∃ metric, codecs.checkSignature config request "x-hub-signature-256" = .ok metric
  | .gitLab => ∃ metric, (checkToken config request : Except (WebhookResponse Payload Installation) _) = .ok metric
  | .gitea => ∃ metric, codecs.checkSignature config request "x-gitea-signature" = .ok metric

theorem forward_delivered {header : String} {sender : Bool} {deliver : List UInt8 → Json → WebhookDelivery Payload Installation}
    {metric : Option WebhookMetric} : (codecs.forward request header sender deliver metric).delivered = (do
      let eventType ← (request.get header).bind HeaderValue.toStr
      let payload ← codecs.fromSlice request.body
      if sender then some (deliver eventType payload) else none) := by
  rw [forward]
  cases (request.get header).bind HeaderValue.toStr with
  | none => rfl
  | some eventType => cases codecs.fromSlice request.body <;> rfl

theorem checkSignature_refuses {header : String} {response : WebhookResponse Payload Installation}
    (closed : codecs.checkSignature config request header = .error response) : response.delivered = none := by
  rw [checkSignature] at closed
  split at closed
  · split at closed
    · cases closed
      rfl
    · split at closed
      · cases closed
        rfl
      · split at closed
        · cases closed
          rfl
        · cases closed
  · cases closed
  · cases closed
    rfl

theorem checkToken_refuses {response : WebhookResponse Payload Installation}
    (closed : checkToken config request = .error response) : response.delivered = none := by
  rw [checkToken] at closed
  split at closed
  · split at closed
    · cases closed
      rfl
    · split at closed
      · cases closed
        rfl
      · cases closed
  · cases closed
  · cases closed
    rfl

theorem gate_delivered {gate : Except (WebhookResponse Payload Installation) (Option WebhookMetric)}
    {rest : Option WebhookMetric → WebhookResponse Payload Installation}
    {expected : Option (WebhookDelivery Payload Installation)} {handed : WebhookDelivery Payload Installation}
    (refuses : ∀ response, gate = .error response → response.delivered = none)
    (delivers : ∀ metric, (rest metric).delivered = expected) :
    (match gate with
      | .error response => response
      | .ok metric => rest metric).delivered = some handed ↔
      (∃ metric, gate = .ok metric) ∧ expected = some handed := by
  cases gate with
  | error response =>
    dsimp only
    rw [refuses response rfl]
    exact iff_of_false nofun fun both => both.1.elim nofun
  | ok metric =>
    dsimp only
    rw [delivers metric]
    exact ⟨fun same => ⟨⟨metric, rfl⟩, same⟩, fun both => both.2⟩

variable {forge : Forge}

theorem handleWebhook_delivered {handed : WebhookDelivery Payload Installation} :
    (codecs.handleWebhook config request forge).delivered = some handed ↔
      codecs.Admits config request forge ∧ codecs.delivery config request forge = some handed := by
  cases forge with
  | gitHub =>
    refine gate_delivered (fun _ => checkSignature_refuses) fun metric => ?_
    rw [delivery]
    cases codecs.fromSlice request.body with
    | none => rfl
    | some json =>
      simp only [bind, Option.bind_some]
      cases codecs.readPayload json <;> rfl
  | gitLab => exact gate_delivered (fun _ => checkToken_refuses) fun metric => forward_delivered
  | gitea => exact gate_delivered (fun _ => checkSignature_refuses) fun metric => forward_delivered

theorem handleWebhook_congr {other : WebhookRequest} (same : other.SameSeen forge request) :
    codecs.handleWebhook config other forge = codecs.handleWebhook config request forge := by
  have proved := same.proved
  cases forge with
  | gitHub =>
    rw [Forge.proofHeader] at proved
    simp only [handleWebhook, handleGithubWebhook, checkSignature, same.body, proved]
  | gitLab =>
    have named := same.event "x-gitlab-event" rfl
    rw [Forge.proofHeader] at proved
    simp only [handleWebhook, handleGitlabWebhook, checkToken, forward, same.body, proved, named]
  | gitea =>
    have named := same.event "x-gitea-event" rfl
    rw [Forge.proofHeader] at proved
    simp only [handleWebhook, handleGiteaWebhook, checkSignature, forward, same.body, proved, named]

theorem handlesAuthentic_iff_gate : codecs.HandlesAuthentic config request forge ↔
    ((codecs.delivery config request forge).isSome = true →
      (codecs.Admits config request forge ↔ codecs.Authentic config request forge)) := by
  constructor
  · rintro ⟨delivers, -⟩ there
    obtain ⟨handed, read⟩ := Option.isSome_iff_exists.mp there
    have same := delivers handed
    rw [handleWebhook_delivered] at same
    simpa only [read, and_true] using same
  · intro agree
    refine ⟨fun handed => ?_, fun other same => handleWebhook_congr same⟩
    rw [handleWebhook_delivered]
    exact and_congr_left fun read => agree (Option.isSome_iff_exists.mpr ⟨handed, read⟩)

theorem admits_of_noSecret (noSecret : config.webhookSecret = none) :
    codecs.Admits config request forge ↔ config.allowInsecureWebhooks = true := by
  cases forge with
  | gitHub | gitea => rw [Admits, checkSignature_admits, noSecret]
  | gitLab => rw [Admits, checkToken_admits, noSecret]

theorem not_admits_of_unproved {secret : String} (secretSet : config.webhookSecret = some secret)
    (unproved : request.get forge.proofHeader = none) : ¬ codecs.Admits config request forge := by
  cases forge with
  | gitHub | gitea =>
    rw [Forge.proofHeader] at unproved
    simp [Admits, checkSignature_admits, secretSet, unproved]
  | gitLab =>
    rw [Forge.proofHeader] at unproved
    simp [Admits, checkToken_admits, secretSet, unproved]

/-- Webhooks are handled as they should be exactly if the forms agree. -/
theorem handlesAuthentic_iff (codecs : WebhookCodecs Payload Installation) (config : WebhookConfig)
    (request : WebhookRequest) (forge : Forge) :
    codecs.HandlesAuthentic config request forge ↔ codecs.FormatsAgree config request forge := by
  rw [handlesAuthentic_iff_gate, FormatsAgree, Authentic]
  cases secretSet : config.webhookSecret with
  | none =>
    apply iff_of_true _ trivial
    exact fun _ => admits_of_noSecret secretSet
  | some secret =>
    cases proved : request.get forge.proofHeader with
    | none =>
      apply iff_of_true _ trivial
      intro _
      apply iff_of_false (not_admits_of_unproved secretSet proved)
      rintro ⟨_, found, -⟩
      cases found
    | some value =>
      apply imp_congr_right
      intro _
      cases forge with
      | gitHub =>
        rw [Forge.proofHeader] at proved
        rw [Admits, checkSignature_admits, secretSet, proved]
        simp [Proves, FormsAgree]
      | gitLab =>
        rw [Forge.proofHeader] at proved
        rw [Admits, checkToken_admits, secretSet, proved]
        simp [Proves, FormsAgree]
      | gitea =>
        rw [Forge.proofHeader] at proved
        rw [Admits, checkSignature_admits, secretSet, proved]
        simp only [Option.some.injEq, exists_eq_left', Proves, FormsAgree]
        constructor
        · intro same
          have notBare : value.bytes ≠ Hex.encode (codecs.mac request secret) := by
            intro bare
            exact not_prefixed_encode _ (bare ▸ same.mpr bare)
          exact ⟨notBare, fun prefixed => notBare (same.mp prefixed)⟩
        · rintro ⟨notBare, notPrefixed⟩
          exact iff_of_false notPrefixed notBare

def emptyObject : List UInt8 := utf8 "\x7b\x7d"

def macOfEmptyObject : List UInt8 :=
  [212, 21, 216, 170, 60, 99, 248, 152, 158, 41, 189, 250, 157, 184, 161, 149, 211, 115, 109, 201, 103, 178, 54, 22, 90,
    188, 71, 191, 59, 144, 250, 119]

def emptyObjectCodecs : WebhookCodecs Unit Unit where
  hmac secret body := if secret = utf8 "my-secret" ∧ body = emptyObject then macOfEmptyObject else []
  fromSlice body := if body = emptyObject then some (.obj []) else none
  readPayload _ := none
  readInstallation _ := none

theorem encode_allowed (mac : List UInt8) : ∀ byte ∈ Hex.encode mac, IsHeaderByte byte := by
  intro byte member
  have bounds := Hex.mem_encode member
  exact .inl ⟨by omega, by omega⟩

theorem push_allowed : ∀ byte ∈ utf8 "push", IsHeaderByte byte := by
  intro byte member
  have visible : (utf8 "push").all isVisibleAscii = true := by decide
  have bounds := List.all_eq_true.mp visible byte member
  rw [isVisibleAscii, decide_eq_true_eq] at bounds
  exact bounds.imp_left fun inside => ⟨inside.1, by omega⟩

def signedByGitea : WebhookRequest where
  headers := [("x-gitea-event", ⟨utf8 "push", push_allowed⟩),
    ("x-gitea-signature", ⟨Hex.encode macOfEmptyObject, encode_allowed _⟩)]
  body := emptyObject

/-- It is refused. -/
theorem signedByGitea_not_handled :
    ¬ emptyObjectCodecs.HandlesAuthentic ⟨some "my-secret", false, false, true⟩ signedByGitea .gitea := by
  rintro ⟨delivers, -⟩
  have refused : (emptyObjectCodecs.handleWebhook ⟨some "my-secret", false, false, true⟩ signedByGitea .gitea).delivered =
      none := Option.isNone_iff_eq_none.mp (by decide)
  have authentic : emptyObjectCodecs.Authentic ⟨some "my-secret", false, false, true⟩ signedByGitea .gitea :=
    ⟨⟨Hex.encode macOfEmptyObject, encode_allowed _⟩, rfl, rfl⟩
  have handed := (delivers (.gitea (utf8 "push") (.obj []))).mpr ⟨authentic, rfl⟩
  rw [refused] at handed
  cases handed

end WebhookCodecs

end EkaCI
