import AutoDeploy.JsonStrings
import AutoDeploy.ShellSyntax
import AutoDeploy.Webhook

namespace AutoDeploy

/-- The request of a `curl` command. -/
structure CurlRequest where
  method : String
  url : String
  headers : List String
  data : String
deriving DecidableEq

/-- The options of `curl` that the snippets use. Another one is no option here. -/
def curlArguments (req : CurlRequest) : List String → Option CurlRequest
  | [] => some req
  | arg :: rest =>
    if arg = "-s" then curlArguments req rest
    else match rest with
      | value :: others =>
        if arg = "-w" then curlArguments req others
        else if arg = "-X" then curlArguments { req with method := value } others
        else if arg = "-H" then curlArguments { req with headers := req.headers ++ [value] } others
        else if arg = "-d" then curlArguments { req with data := value } others
        else if GoStrings.hasPrefix arg "-" then none
        else curlArguments { req with url := arg } (value :: others)
      | [] => if GoStrings.hasPrefix arg "-" then none else some { req with url := arg }

def curl : List String → Option CurlRequest
  | "curl" :: args => curlArguments ⟨"GET", "", [], ""⟩ args
  | _ => none

/-- The value of a header, without the blanks around it. -/
def headerValue (name : String) (lines : List String) : String :=
  let value := lines.findSome? fun line =>
    if GoStrings.hasPrefix line (name ++ ":") then some (GoStrings.trimPrefix line (name ++ ":"))
    else none
  value.elim "" fun text => .ofList (((text.toList.dropWhile ShellSyntax.isBlank).reverse.dropWhile
    ShellSyntax.isBlank).reverse)

/-- The tag of an object that is written with this one member and without blanks. -/
def bindTag (body : String) : Option String :=
  if GoStrings.hasPrefix body "\x7b\"tag\":" then
    let rest := (GoStrings.trimPrefix body "\x7b\"tag\":").toList
    if rest.getLast? = some '\x7d' then JsonStrings.decode rest.dropLast else none
  else none

/-- What the server finds in such a request. -/
def CurlRequest.webhook (req : CurlRequest) : WebhookRequest :=
  ⟨headerValue "Authorization" req.headers, bindTag req.data⟩

section Shell

open ShellSyntax

variable {origin secret tag : String} {gap : List Char}

end Shell

section Request

variable {origin secret tag : String}

end Request

end AutoDeploy
