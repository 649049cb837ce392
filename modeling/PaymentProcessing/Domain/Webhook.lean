import PaymentProcessing.Domain.Exceptions
import PaymentProcessing.Python.Values

/-!
# The webhook guard (`domain/webhook.py`)

`Platform` holds the standard-library functions the program calls and whose values the model leaves
open, and the success rate the gateway is deployed with. The guard itself is the source's.
-/

namespace PaymentProcessing

open Python

/-- What `urlparse` gives, as far as it is read. -/
structure UrlParts where
  scheme : String
  username : Option String
  password : Option String
  hostname : Option String

/-- The standard library and the deployment, as far as the model leaves them open. -/
structure Platform where
  /-- `urllib.parse.urlparse`; `none` where it raises `ValueError`. -/
  urlparse : String → Option UrlParts
  /-- `ipaddress.ip_address(host).is_global`; `none` where it raises `ValueError`. -/
  isGlobal : String → Option Bool
  /-- `datetime.isoformat`. -/
  isoformat : Time → String
  /-- `str(value)` of a value that is not a string. -/
  render : Value → String
  /-- `json.dumps` accepts the document. -/
  serializable : Json → Bool
  /-- `success_rate` of the gateway. -/
  successRate : Float64

/-- `_BLOCKED_HOSTS`. -/
def blockedHosts : List String :=
  ["localhost", "localhost.localdomain", "metadata.google.internal"]

/-- `_is_blocked_host`. -/
def isBlockedHost (host : String) : Bool :=
  host ∈ blockedHosts || host.endsWith ".localhost" || host.endsWith ".local" ||
    host.endsWith ".internal"

/-- `_is_blocked_ip`. -/
def isBlockedIp (py : Platform) (host : String) : Bool :=
  match py.isGlobal host with
  | none => false
  | some isGlobal => !isGlobal

/-- `text.rstrip(".")`. -/
def rstripDots (text : String) : String :=
  String.ofList ((text.toList.reverse.dropWhile (· = '.')).reverse)

/-- A text that is there and not empty. -/
def truthy : Option String → Bool
  | some text => text ≠ ""
  | none => false

/-- `WebhookUrl(value)`: the url itself if it passes the guard. -/
def webhookUrl (py : Platform) (value : String) : Except Exc String :=
  match py.urlparse value with
  | none => .error (.valueError "invalid url")
  | some parsed =>
    if parsed.scheme ≠ "http" ∧ parsed.scheme ≠ "https" then
      .error (.invalidWebhookUrl "webhook url must be http or https")
    else if truthy parsed.username || truthy parsed.password then
      .error (.invalidWebhookUrl "webhook url must not include credentials")
    else if !truthy parsed.hostname then
      .error (.invalidWebhookUrl "webhook url host is required")
    else
      let host := rstripDots ((parsed.hostname.getD "").toLower)
      if isBlockedHost host || isBlockedIp py host then
        .error (.invalidWebhookUrl "webhook url must not target a private host")
      else .ok value

/-- The guard returns the url it was given. -/
theorem eq_of_webhookUrl {py : Platform} {value url : String}
    (h : webhookUrl py value = .ok url) : url = value := by
  unfold webhookUrl at h
  split at h
  · cases h
  · split_ifs at h
    dsimp only at h
    split at h
    · cases h
    · exact (Except.ok.inj h).symm

end PaymentProcessing
