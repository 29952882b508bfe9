import Shaka.Core.Redaction
import Shaka.Library.JsonValue

namespace Shaka.Observability
open Shaka.Core JsonValue

structure TelemetryPolicy where
  captureContent : Bool
  maxTextChars : Nat
  maxJsonDepth : Nat
  maxJsonItems : Nat
  deriving DecidableEq, Repr

inductive TelemetryError where
  | contentCaptureDisabled
  | invalidPolicy (reason : String)
  deriving DecidableEq, Repr

def TelemetryPolicy.default : TelemetryPolicy := ⟨false,4096,16,256⟩

def TelemetryPolicy.validate (policy : TelemetryPolicy) : Except TelemetryError TelemetryPolicy :=
  if policy.captureContent then .error .contentCaptureDisabled
  else if policy.maxTextChars = 0 ∨ policy.maxTextChars > 64 * 1024 then
    .error (.invalidPolicy "max_text_chars deve estar entre 1 e 65536")
  else if policy.maxJsonDepth = 0 ∨ policy.maxJsonDepth > 64 then
    .error (.invalidPolicy "max_json_depth deve estar entre 1 e 64")
  else if policy.maxJsonItems = 0 ∨ policy.maxJsonItems > 4096 then
    .error (.invalidPolicy "max_json_items deve estar entre 1 e 4096")
  else .ok policy

def normalizedKey (key : String) : List Char :=
  (key.toList.map Char.toLower).map fun c => if c = '-' then '_' else c

def isOneOf (normalized : List Char) (names : List String) : Bool := names.any fun name =>
    name.toList == normalized

def endsWith (normalized : List Char) (ending : String) : Bool := ending.toList.isSuffixOf normalized

def contains (normalized : List Char) (marker : String) : Bool :=
  normalized.tails.any marker.toList.isPrefixOf

def sensitiveKey (key : String) : Bool :=
  let normalized := normalizedKey key
  isOneOf normalized ["api_key","apikey","access_token","authorization","bearer","cookie","set_cookie",
    "secret","password","private_key","token"] ||
  endsWith normalized "_secret" || endsWith normalized "_password" || endsWith normalized "_api_key" ||
  endsWith normalized "_access_token"

def contentKey (key : String) : Bool :=
  let normalized := normalizedKey key
  isOneOf normalized ["argument","arguments","completion","content","input","message","messages",
    "objective","output","prompt","response","result","system","system_instructions","system_prompt",
    "tool_arguments","tool_result","user_message"] ||
  ["argument","completion","content","input","message","objective","output","prompt","response",
    "result"].any (contains normalized)

def truncationSuffix : List Char := "…[TRUNCATED]".toList

def truncateText (value : String) (maxChars : Nat) : String :=
  if value.toList.length ≤ maxChars then value
  else if maxChars ≤ truncationSuffix.length then String.ofList (truncationSuffix.take maxChars)
  else String.ofList (value.toList.take (maxChars - truncationSuffix.length) ++ truncationSuffix)

theorem validatePolicy_bounds {policy accepted : TelemetryPolicy} (valid : policy.validate = .ok accepted) :
    (0 < policy.maxTextChars ∧ policy.maxTextChars ≤ 64 * 1024) ∧
    (0 < policy.maxJsonDepth ∧ policy.maxJsonDepth ≤ 64) ∧
    0 < policy.maxJsonItems ∧ policy.maxJsonItems ≤ 4096 := by
  unfold TelemetryPolicy.validate at valid
  split at valid
  · cases valid
  split at valid
  · cases valid
  split at valid
  · cases valid
  split at valid
  · cases valid
  · omega

-- The limits of a policy that has been validated.
structure Redactor where
  text : Nat
  jsonDepth : Nat
  jsonItems : Nat
  textBounds : 0 < text ∧ text ≤ 64 * 1024
  depthBounds : 0 < jsonDepth ∧ jsonDepth ≤ 64
  itemBounds : 0 < jsonItems ∧ jsonItems ≤ 4096

def Redactor.fromPolicy (policy accepted : TelemetryPolicy) (valid : policy.validate = .ok accepted) :
    Redactor where
  text := policy.maxTextChars
  jsonDepth := policy.maxJsonDepth
  jsonItems := policy.maxJsonItems
  textBounds := (validatePolicy_bounds valid).1
  depthBounds := (validatePolicy_bounds valid).2.1
  itemBounds := (validatePolicy_bounds valid).2.2

def Redactor.new (policy : TelemetryPolicy) : Except TelemetryError Redactor :=
  match valid : policy.validate with
  | .error error => .error error
  | .ok accepted => .ok (Redactor.fromPolicy policy accepted valid)

def depthLimit : Json := .string "[REDACTED_DEPTH_LIMIT]"

def truncatedItems : Json := .string "[TRUNCATED_ITEMS]"

namespace Redactor
variable (redactor : Redactor) (isWord : Char → Bool)

def redactText (input : String) : String := truncateText (redactSensitive isWord input) redactor.text

mutual
def redactJsonAtDepth : Json → Nat → Json
  | .null,depth => if depth ≥ redactor.jsonDepth then depthLimit else .null
  | .bool value,depth => if depth ≥ redactor.jsonDepth then depthLimit else .bool value
  | .number text,depth => if depth ≥ redactor.jsonDepth then depthLimit else .number text
  | .string text,depth =>
    if depth ≥ redactor.jsonDepth then depthLimit else .string (redactor.redactText isWord text)
  | .array values,depth =>
    if depth ≥ redactor.jsonDepth then depthLimit
    else .array (redactItems values redactor.jsonItems (depth + 1) ++
      if values.length > redactor.jsonItems then [truncatedItems] else [])
  | .object object,depth =>
    if depth ≥ redactor.jsonDepth then depthLimit else .object (redactEntries object 0 [] (depth + 1))

-- `iter().take(..).map(..)`.
def redactItems : List Json → Nat → Nat → List Json
  | [],_,_ => []
  | _ :: _,0,_ => []
  | item :: rest,left + 1,depth => redactJsonAtDepth item depth :: redactItems rest left depth

-- The loop over the entries, with the map that it builds.
def redactEntries : List (String × Json) → Nat → List (String × Json) → Nat → List (String × Json)
  | [],_,redacted,_ => redacted
  | (key,item) :: rest,index,redacted,depth =>
    if index ≥ redactor.jsonItems then insertEntry "_truncated" truncatedItems redacted
    else if sensitiveKey key then redactEntries rest (index + 1)
      (insertEntry key (.string "[REDACTED]") redacted) depth
    else if contentKey key then
      redactEntries rest (index + 1) (insertEntry key (.string "[REDACTED_CONTENT]") redacted) depth
    else redactEntries rest (index + 1) (insertEntry key (redactJsonAtDepth item depth) redacted) depth
end

def redactJson (value : Json) : Json := redactor.redactJsonAtDepth isWord value 0

end Redactor
end Shaka.Observability
