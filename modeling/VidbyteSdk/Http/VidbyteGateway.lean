import VidbyteSdk.Lib.Dicts
import VidbyteSdk.Registries.ProviderKeys

/-!
# The generative gateway

`VidbyteGatewayTransport.request` of `lib/http/vidbyte_gateway.py`: one POST and its re-sends, and the error of a
call that fails. The answers of the gateway, the clock and the unit of its readings are parameters: a run is one call
under any of them. What a call says of a failure is a function of the last answer's status and shape.
-/

namespace VidbyteSdk.Http

open Lib
open Registries (ModelProvider)

/-! ### Answers -/

structure HttpResponse where
  statusCode : ℤ
  body : Text
  headers : List (Text × Text)
  rawBytes : Option (List ℕ)
  attempts : ℕ
  url : Option Text

/-- What one send comes to: a response, a `ProviderRequestError`, or any other exception. -/
inductive Attempt
  | response (response : HttpResponse)
  | transportError
  | otherError

/-- The members of a body that is a JSON object: `_json_object`. -/
def jsonObject (response : HttpResponse) : Option (List (Text × Json)) :=
  match Json.loads response.body with
  | some (.obj members) => some members
  | _ => none

namespace Attempt

def status : Attempt → Option ℤ
  | .response answer => some answer.statusCode
  | _ => none

def succeeded : Attempt → Bool
  | .response answer => (jsonObject answer).isSome && 200 ≤ answer.statusCode && answer.statusCode < 300
  | _ => false

/-- `status in (HTTPStatus.CONFLICT, HTTPStatus.BAD_GATEWAY)` -/
def isReplayed (status : ℤ) : Bool := status = 409 || status = 502

def retryable : Attempt → Bool
  | .response answer => (jsonObject answer).isNone || isReplayed answer.statusCode
  | _ => false

/-- Whether `self.body.get("error") is True`. -/
def saysError (members : List (Text × Json)) : Bool :=
  match members.lookup (Json.lit "error") with
  | some (.bool true) => true
  | _ => false

end Attempt

/-! ### The wording of a failure -/

def JEV_DEFAULT_RETRY_COUNT : ℕ := 2

def JEV_NO_RETRIES : ℕ := 0

/-- `PROVIDER_API_KEY_ENV_VARS` -/
def apiKeyEnvVar : ModelProvider → String
  | .openai => "OPENAI_API_KEY"
  | .anthropic => "ANTHROPIC_API_KEY"
  | .gemini => "GEMINI_API_KEY"
  | .xai => "XAI_API_KEY"
  | .deepseek => "DEEPSEEK_API_KEY"
  | .glm => "GLM_API_KEY"
  | .minimax => "MINIMAX_API_KEY"
  | .kimi => "MOONSHOT_API_KEY"
  | .meta => "META_API_KEY"
  | .mistral => "MISTRAL_API_KEY"
  | .openrouter => "OPENROUTER_API_KEY"
  | .elevenlabs => "ELEVENLABS_API_KEY"
  | .playai => "PLAYAI_API_KEY"
  | .typesafe => "TYPESAFE_API_KEY"

/-- `retried` of `failure_reason`; `timeout` is the text of `timeout_seconds:g`. -/
def retriedText (timeout : String) (resends : ℕ) : String :=
  if resends = JEV_NO_RETRIES then
    s!"the SDK did not re-send it, because the call's {timeout} s timeout left no time for another attempt"
  else s!"the SDK re-sent it with the same Idempotency-Key (re-sends in this call: {resends})"

/-- `gateway_reason` -/
def gatewayReason (status : ℤ) (retried : String) (provider : ModelProvider) (relays : Bool) : String :=
  let name := provider.value
  if status = 401 then
    s!"Vidbyte rejected the Vidbyte API key (HTTP {status}); check VIDBYTE_API_KEY or vidbyte_api_key"
  else if status = 402 then
    if relays then
      s!"your Vidbyte wallet balance is too low for Vidbyte's fee on this call (HTTP {status}, which never means a provider's billing); top up the wallet"
    else
      s!"your own Vidbyte wallet balance is too low for this call (HTTP {status}, which never means a provider's billing); top up the wallet, or, with mode=TextModelMode.AUTO (the default), add your own provider key for {name} to api_keys so the wallet pays only Vidbyte's fee"
  else if status = 403 then
    s!"the Vidbyte API key lacks the models:invoke scope (HTTP {status}); grant that scope to the key"
  else if status = 409 then
    s!"an earlier attempt of this call is still running at Vidbyte (HTTP {status}) and may still complete and be billed; {retried}, so wait before sending the request again, because a new request may pay twice"
  else if status = 413 then
    s!"the request exceeds the gateway's 2,000,000-byte limit, measured as JSON with non-ASCII characters escaped (HTTP {status}); shorten the context, or use TextModelMode.DIRECT to send it straight to the provider"
  else if status = 422 then
    s!"the gateway cannot manage this request (HTTP {status}); the causes are an unmanaged or unpriced provider or model, a malformed model name, streaming, a missing or invalid output-token limit, a body model that differs from the model (or any body model for Gemini), a hosted (non-function) tool, a service tier, a previous-response or conversation reference, or a body field outside the gateway's allowed list, including Gemini snake_case keys; to send a request the gateway cannot bill, use TextModelMode.DIRECT, which sends it straight to the provider with your own key"
  else if status = 429 then
    if relays then
      s!"the Vidbyte API key reached its request quota (HTTP {status}); wait for the quota to reset"
    else
      s!"the Vidbyte API key reached its request quota or its daily managed spend cap (HTTP {status}); wait for the limit to reset, or raise the cap"
  else if status < 500 then s!"Vidbyte returned HTTP {status}"
  else
    let cause := if relays then "is unavailable" else "is unavailable or refused Vidbyte's own account"
    let unavailable :=
      s!"the Vidbyte gateway, or the provider behind it, {cause} (HTTP {status}), and the cause is not known"
    if status = 502 then s!"{unavailable}; {retried}" else unavailable

/-- The last part of `failure_reason`: a provider's own answer. -/
def relayedReason (status : ℤ) (retried : String) (provider : ModelProvider) (relays : Bool) : String :=
  let name := provider.value
  let envVar := apiKeyEnvVar provider
  if relays && (status = 401 || status = 402 || status = 403) then
    s!"{name} refused the call made with your own {name} key (HTTP {status}): the key is wrong or revoked, lacks access to this model, or its {name} account cannot pay; the provider's message is withheld, and Vidbyte did not bill the call"
  else
    let relayed :=
      s!"{name} returned HTTP {status} through the Vidbyte gateway; the provider's message is withheld, and the call was not billed"
    let relayed :=
      if relays && status = 400 then
        s!"{relayed}; some providers answer a wrong API key with HTTP 400, so check your own {name} key in api_keys or {envVar}"
      else relayed
    if Attempt.isReplayed status then s!"{relayed}; {retried}" else relayed

/-- `failure_reason` -/
def failureReason (answer : Attempt) (provider : ModelProvider) (timeout : String) (resends : ℕ) (relays : Bool) :
    String :=
  let retried := retriedText timeout resends
  match answer with
  | .transportError =>
    s!"no response arrived (network failure, or the {timeout} s timeout elapsed), and Vidbyte may already have billed the call"
  | .otherError =>
    "the request failed before an answer arrived, and if it reached Vidbyte it may have been billed"
  | .response response =>
    let status := response.statusCode
    match jsonObject response with
    | none =>
      s!"Vidbyte's hosting edge answered HTTP {status} instead of the gateway (usually during a deploy or restart); {retried}, the failure is usually transient, and Vidbyte may already have billed the call"
    | some members =>
      if Attempt.saysError members then gatewayReason status retried provider relays
      else relayedReason status retried provider relays

structure ProviderRequestError where
  message : String
  provider : String
  statusCode : Option ℤ
  responseExcerpt : Option Text
  details : List (String × (String ⊕ ℤ))
  deriving DecidableEq

/-- `ProviderRequestError(message, provider="vidbyte", status_code=status)` -/
def ProviderRequestError.vidbyte (message : String) (status : Option ℤ) : ProviderRequestError where
  message := message
  provider := "vidbyte"
  statusCode := status
  responseExcerpt := none
  details := ("provider", .inl "vidbyte") :: (status.map fun code => ("status_code", Sum.inr code)).toList

/-! ### One call -/

/-- What a transport is built with, and what the adapter gives to `request`. -/
structure GatewayCall (T : Type) where
  provider : ModelProvider
  model : Text
  apiKey : Text
  providerApiKey : Option Text
  jsonBody : Option (List (Text × Json))
  timeoutSeconds : T
  /-- `uuid.uuid4().hex` -/
  idempotencyKey : Text

/-- What `_send` hands to the inner transport. -/
structure Post (T : Type) where
  method : Text
  url : Text
  headers : List (Text × Text)
  jsonBody : Json
  timeoutSeconds : T
  idempotencyKey : Text

namespace GatewayCall

variable {T : Type} (call : GatewayCall T)

def relays : Bool := call.providerApiKey.isSome

def gatewayHeaders : List (Text × Text) :=
  [(Json.lit "authorization", Json.lit "Bearer " ++ call.apiKey),
    (Json.lit "content-type", Json.lit "application/json"), (Json.lit "Idempotency-Key", call.idempotencyKey)]
    ++ (call.providerApiKey.map fun key => (Json.lit "X-Vidbyte-Provider-Key", key)).toList

def envelope : Json :=
  .obj [(Json.lit "provider", .str (Json.lit call.provider.value)), (Json.lit "model", .str call.model),
    (Json.lit "body", .obj (call.jsonBody.getD []))]

def post : Post T where
  method := Json.lit "POST"
  url := Json.lit "https://vidbyte-backend.onrender.com/api/v1/models/generate"
  headers := call.gatewayHeaders
  jsonBody := call.envelope
  timeoutSeconds := call.timeoutSeconds
  idempotencyKey := call.idempotencyKey

end GatewayCall

/-- What a call meets: the outcome of each send, and the readings of `loop.time()`, the first for the deadline. -/
structure Meets (T : Type) where
  answers : ℕ → Attempt
  clock : ℕ → T

/-- The clock's unit: `JEV_RETRY_BACKOFF_SECONDS` in it, and the text of a number of seconds by `:g`. -/
structure Seconds (T : Type) where
  backoff : T
  text : T → String

structure Sends (T : Type) where
  posts : List (Post T)
  resends : ℕ
  answer : Attempt

section Request

variable {T : Type} [Add T] [LE T] [DecidableLE T] (seconds : Seconds T) (call : GatewayCall T) (meets : Meets T)

def deadline : T := meets.clock 0 + call.timeoutSeconds

/-- The loop of `request`, with the number of re-sends left and made, the wait before the next, and the last answer. -/
def resendLoop : ℕ → ℕ → T → Attempt → List (Post T) → Sends T
  | 0, resends, _, answer, posts => ⟨posts, resends, answer⟩
  | left + 1, resends, retryWait, answer, posts =>
    if !answer.retryable || decide (deadline call meets ≤ meets.clock (resends + 1) + retryWait) then
      ⟨posts, resends, answer⟩
    else
      resendLoop left (resends + 1) (retryWait + seconds.backoff) (meets.answers (resends + 1)) (posts ++ [call.post])

def sends : Sends T :=
  resendLoop seconds call meets JEV_DEFAULT_RETRY_COUNT 0 seconds.backoff (meets.answers 0) [call.post]

def failure : ProviderRequestError :=
  let sent := sends seconds call meets
  let reason :=
    failureReason sent.answer call.provider (seconds.text call.timeoutSeconds) sent.resends call.relays
  let name := call.provider.value
  .vidbyte s!"Vidbyte gateway {name} request failed: {reason}." sent.answer.status

/-- `VidbyteGatewayTransport.request` -/
def request : Except ProviderRequestError HttpResponse :=
  match (sends seconds call meets).answer with
  | .response response =>
    if Attempt.succeeded (.response response) then .ok response else .error (failure seconds call meets)
  | _ => .error (failure seconds call meets)

/-! ### The sends -/

def waitBefore (backoff : T) : ℕ → T
  | 0 => backoff
  | n + 1 => waitBefore backoff n + backoff

/-- The re-send after `n` others is made for an answer that is marked safe, and before the deadline. -/
def MayResend (n : ℕ) : Prop :=
  (meets.answers n).retryable = true ∧
    ¬ deadline call meets ≤ meets.clock (n + 1) + waitBefore seconds.backoff n

theorem resendLoop_spec (left resends : ℕ) (answer : Attempt) (hanswer : answer = meets.answers resends) :
    let sent := resendLoop seconds call meets left resends (waitBefore seconds.backoff resends) answer
      (List.replicate (resends + 1) call.post)
    sent.posts = List.replicate (sent.resends + 1) call.post ∧ sent.answer = meets.answers sent.resends ∧
      resends ≤ sent.resends ∧ sent.resends ≤ resends + left ∧
      ∀ n, resends ≤ n → n < sent.resends → MayResend seconds call meets n := by
  induction left generalizing resends answer with
  | zero => exact ⟨rfl, hanswer, Nat.le_refl _, Nat.le_refl _, fun n hle hlt => absurd hlt (Nat.not_lt_of_le hle)⟩
  | succ left ih =>
    simp only [resendLoop]
    split
    · exact ⟨rfl, hanswer, Nat.le_refl _, Nat.le_add_right _ _, fun n hle hlt => absurd hlt (Nat.not_lt_of_le hle)⟩
    · next hgoes =>
      rw [Bool.or_eq_true, not_or, Bool.not_eq_true', Bool.not_eq_false, decide_eq_true_eq, hanswer] at hgoes
      rw [← List.replicate_succ']
      obtain ⟨hposts, hlast, hmade, hmost, hmay⟩ := ih (resends + 1) (meets.answers (resends + 1)) rfl
      refine ⟨hposts, hlast, Nat.le_of_succ_le hmade, hmost.trans_eq (Nat.add_right_comm _ _ _), fun n hle hlt => ?_⟩
      rcases Nat.eq_or_lt_of_le hle with rfl | hle
      · exact hgoes
      · exact hmay n hle hlt

theorem sends_spec :
    (sends seconds call meets).posts = List.replicate ((sends seconds call meets).resends + 1) call.post ∧
      (sends seconds call meets).answer = meets.answers (sends seconds call meets).resends ∧
      (sends seconds call meets).resends ≤ JEV_DEFAULT_RETRY_COUNT ∧
      ∀ n < (sends seconds call meets).resends, MayResend seconds call meets n := by
  obtain ⟨hposts, hlast, -, hmost, hmay⟩ :=
    resendLoop_spec seconds call meets JEV_DEFAULT_RETRY_COUNT 0 (meets.answers 0) rfl
  exact ⟨hposts, hlast, hmost.trans_eq (Nat.zero_add _), fun n hn => hmay n (Nat.zero_le n) hn⟩

theorem request_eq_ok {response : HttpResponse} :
    request seconds call meets = .ok response ↔
      (sends seconds call meets).answer = .response response ∧ Attempt.succeeded (.response response) = true := by
  unfold request
  split
  · next other hanswer =>
    rw [hanswer, Attempt.response.injEq]
    split
    · next hsucceeded =>
      rw [Except.ok.injEq]
      exact ⟨fun h => ⟨h, h ▸ hsucceeded⟩, fun h => h.1⟩
    · next hfailed => exact ⟨fun h => (nomatch h), fun h => absurd (h.1 ▸ h.2) hfailed⟩
  · next hnone => exact ⟨fun h => (nomatch h), fun h => absurd h.1 (hnone response)⟩

theorem request_eq_error {error : ProviderRequestError} (h : request seconds call meets = .error error) :
    error = failure seconds call meets := by
  unfold request at h
  split at h
  · split at h
    · cases h
    · exact (Except.error.inj h).symm
  · exact (Except.error.inj h).symm

end Request

/-! ### What a failure tells -/

inductive Shape
  | missingAfterTransportError
  | missingAfterOtherError
  | notAnObject
  | objectWithError
  | otherObject
  deriving DecidableEq

def Attempt.shape : Attempt → Shape
  | .transportError => .missingAfterTransportError
  | .otherError => .missingAfterOtherError
  | .response answer =>
    match jsonObject answer with
    | none => .notAnObject
    | some members => if Attempt.saysError members then .objectWithError else .otherObject

theorem failureReason_congr {answer other : Attempt} (hstatus : answer.status = other.status)
    (hshape : answer.shape = other.shape) (provider : ModelProvider) (timeout : String) (resends : ℕ) (relays : Bool) :
    failureReason answer provider timeout resends relays = failureReason other provider timeout resends relays := by
  cases answer with
  | transportError =>
    cases other with
    | transportError => rfl
    | otherError => cases hshape
    | response response => cases hstatus
  | otherError =>
    cases other with
    | transportError => cases hshape
    | otherError => rfl
    | response response => cases hstatus
  | response response =>
    cases other with
    | transportError => cases hstatus
    | otherError => cases hstatus
    | response response' =>
      have hcode : response.statusCode = response'.statusCode := Option.some.inj hstatus
      unfold Attempt.shape at hshape
      dsimp only at hshape
      unfold failureReason
      dsimp only
      rw [hcode]
      cases hbody : jsonObject response with
      | none =>
        cases hbody' : jsonObject response' with
        | none => rfl
        | some members' =>
          rw [hbody, hbody'] at hshape
          dsimp only at hshape
          split at hshape <;> cases hshape
      | some members =>
        cases hbody' : jsonObject response' with
        | none =>
          rw [hbody, hbody'] at hshape
          dsimp only at hshape
          split at hshape <;> cases hshape
        | some members' =>
          rw [hbody, hbody'] at hshape
          dsimp only at hshape
          have herror : Attempt.saysError members = Attempt.saysError members' := by
            by_cases hfirst : Attempt.saysError members = true <;> by_cases hother : Attempt.saysError members' = true
            · rw [hfirst, hother]
            · rw [if_pos hfirst, if_neg hother] at hshape
              cases hshape
            · rw [if_neg hfirst, if_pos hother] at hshape
              cases hshape
            · rw [Bool.eq_false_of_not_eq_true hfirst, Bool.eq_false_of_not_eq_true hother]
          dsimp only
          rw [herror]

end VidbyteSdk.Http
