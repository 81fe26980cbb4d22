import AutoDeploy.AdmitDecision

namespace AutoDeploy

open Interleaving

/-- A request to `/webhook`: the `Authorization` header, empty if there is none, and the tag that
`BindJSON` reads from the body, if it can. -/
structure WebhookRequest where
  authorization : String
  tag : Option String

structure WebhookResponse where
  code : ℕ
  status : String
  tag : String
  error : String
deriving DecidableEq

def AdmissionError.text (quote : String → String) (quoteRune : Char → String)
    (driver : SqlError → String) : AdmissionError → String
  | store cause => cause.text quote driver
  | queue cause => cause.text quote quoteRune driver
  | queueFull => "queue full"

/-- The answer to a request for `bodyTag` that `Admit` has decided. -/
def AdmissionResult.respond (text : AdmissionError → String) (bodyTag : String)
    (result : AdmissionResult) : WebhookResponse :=
  match result.outcome with
  | .unauthorized => ⟨401, "error", "", "unauthorized"⟩
  | .badRequest =>
    ⟨400, "error", "", if result.tag = "" then "missing or empty tag" else "invalid tag"⟩
  | .duplicate => ⟨200, "duplicate", bodyTag, ""⟩
  | .queued => ⟨202, "queued", bodyTag, ""⟩
  | .error =>
    let errMsg := result.error.elim "internal error" text
    if errMsg = "queue full" then ⟨503, "error", "", "queue full"⟩ else ⟨500, "error", "", errMsg⟩

/-- The request has this bearer token and asks for this tag. -/
structure WebhookRequest.Asks (req : WebhookRequest) (token tag : String) : Prop where
  bearer : req.authorization = "Bearer " ++ token
  asked : req.tag = some tag
  nonempty : tag ≠ ""

section Handler

variable {rt : Runtime} {s : Server} {req : WebhookRequest} {resp : WebhookResponse}
  {token tag : String} {result : AdmissionResult} {text : AdmissionError → String}

end Handler

end AutoDeploy
