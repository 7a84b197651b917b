import Ophelia.Lib.Json
import Ophelia.Lib.PyText

/-!
# Ophelia.Domain.Redaction

The redaction rules of `redaction.py` and the secret-safe serialization that
`domain/_contracts.py` builds on them. A value passes through three rewrites on its way
to its canonical text:

* keys that never leave the kernel (`nonce`, `stdout`, …) are dropped from mappings;
* `deepRedact` masks what stands under a sensitive key, in a command string, or has the
  shape of a credential;
* `restoreDigestMetadata` puts validated digests back under `*_digest` keys.

The second half of the module is the theory the contracts use. Their keys are neither
sensitive nor commands (`Json.Plain`), and on such values all three rewrites together
are the single map `mask` over the strings of the value.
-/

namespace Ophelia

/-! ### `redaction.py` -/

/-- What a secret is replaced with. -/
def REDACTED : String := "<redacted>"

def SENSITIVE_KEY_PATTERNS : List String :=
  ["SECRET", "TOKEN", "PASSWORD", "PRIVATE_KEY", "DATABASE_URL", "REDIS_URL", "API_KEY",
    "CREDENTIAL"]

/-- Connection-string schemes whose values are always secrets. -/
def SECRET_VALUE_PREFIXES : List String :=
  ["postgres://", "postgresql://", "redis://", "rediss://", "mysql://", "mongodb://",
    "amqp://", "amqps://"]

def COMMAND_STRING_KEYS : List String :=
  ["command", "commands", "exact_command", "recommended_command"]

def SENSITIVE_COMMAND_FLAGS : List String :=
  ["password", "passwd", "secret", "token", "api-key", "apikey", "private-key",
    "private_key", "database-url", "database_url", "redis-url", "redis_url"]

/-- A key name that looks like it holds a secret value. -/
def isSensitiveKey (name : List Char) : Bool :=
  SENSITIVE_KEY_PATTERNS.any fun pat => PyText.contains pat.toList (PyText.upper name)

/-- The `user:pass@` shape in front of a host. -/
def hasUserInfo (candidate : List Char) : Bool :=
  match PyText.cut? "://".toList candidate with
  | none => false
  | some (_, rest) =>
      let authority := PyText.before '/' rest
      authority.contains '@' && (PyText.before '@' authority).contains ':'

/-- A value whose shape looks like a credential, whatever its key: a connection string,
or a URL with `user:pass@host` in it. -/
def looksLikeSecretValue (value : List Char) : Bool :=
  let candidate := PyText.strip value
  SECRET_VALUE_PREFIXES.any (fun pre => pre.toList.isPrefixOf (PyText.lower candidate)) ||
    hasUserInfo candidate

/-- A key that conventionally carries a runnable command string. -/
def looksLikeCommandKey (name : String) : Bool :=
  let lowered := PyText.lower name.toList
  COMMAND_STRING_KEYS.any (fun key => key.toList == lowered) ||
    PyText.endsWith "_command".toList lowered || PyText.endsWith "_commands".toList lowered

/-- Some sensitive option name occurs in `option`. -/
def namesSensitiveFlag (option : List Char) : Bool :=
  SENSITIVE_COMMAND_FLAGS.any fun flag =>
    PyText.contains flag.toList (PyText.lower (option.dropWhile (· == '-')))

/-- Mask the words of a command. `redactNext` is set after an option whose value is a
word of its own. -/
def redactParts (marker : List Char) : Bool → List (List Char) → List (List Char)
  | redactNext, [] => if redactNext then [marker] else []
  | true, _ :: parts => marker :: redactParts marker false parts
  | false, part :: parts =>
      let option := PyText.before '=' part
      let separator := part.contains '='
      let optionValue := part.drop (option.length + 1)
      if separator && (namesSensitiveFlag option ||
          isSensitiveKey option || looksLikeSecretValue optionValue) then
        (option ++ '=' :: marker) :: redactParts marker false parts
      else if part.head? == some '-' && namesSensitiveFlag option then
        part :: redactParts marker true parts
      else if looksLikeSecretValue part then marker :: redactParts marker false parts
      else part :: redactParts marker false parts

/-- The words of a command: shell words, or the blank-separated ones when the shell
syntax is malformed. -/
def commandParts (command : List Char) : List (List Char) :=
  (PyText.shellSplit .blank [] false command).getD (PyText.splitWords [] command)

/-- Mask secret-shaped command arguments while preserving the shape of the command. -/
def redactCommandString (command : String) (marker : String) : String :=
  if command = "" then command
  else
    let redacted := redactParts marker.toList false (commandParts command.toList)
    String.ofList ([' '].intercalate (redacted.map PyText.shellQuote))

/-- Replace a real value by `marker`; `null` and the empty string stay observable. -/
def redactValue (marker : String) : Json → Json
  | .null => .null
  | .str s => if s = "" then .str "" else .str marker
  | _ => .str marker

/-- The rule for one scalar, by the sensitivity of its key, the key and its own shape. -/
def redactScalar (marker : String) (keyIsSensitive : Bool) (keyName : Option String)
    (value : Json) : Json :=
  if keyIsSensitive then redactValue marker value
  else
    match value with
    | .str s =>
        if keyName.any looksLikeCommandKey then .str (redactCommandString s marker)
        else if looksLikeSecretValue s.toList then redactValue marker (.str s)
        else .str s
    | value => value

mutual

/-- The recursive walk of `deep_redact(…, propagate=True)` with no safe keys: a sensitive
key masks its whole subtree. -/
def redactWalk (marker : String) (keyIsSensitive : Bool) (keyName : Option String) :
    Json → Json
  | .arr xs => .arr (redactItems marker keyIsSensitive keyName xs)
  | .obj ms => .obj (redactMembers marker keyIsSensitive ms)
  | value => redactScalar marker keyIsSensitive keyName value

def redactItems (marker : String) (keyIsSensitive : Bool) (keyName : Option String) :
    List Json → List Json
  | [] => []
  | x :: xs =>
      redactWalk marker keyIsSensitive keyName x ::
        redactItems marker keyIsSensitive keyName xs

def redactMembers (marker : String) (keyIsSensitive : Bool) :
    List (String × Json) → List (String × Json)
  | [] => []
  | (k, v) :: ms =>
      (k, redactWalk marker (isSensitiveKey k.toList || keyIsSensitive) (some k) v) ::
        redactMembers marker keyIsSensitive ms

end

/-- Mask secret-bearing scalars in nested values, sensitivity propagating downwards. -/
def deepRedact (j : Json) : Json :=
  redactWalk REDACTED false none j

mutual

/-- The recursive walk of `deep_redact` as it is called by default: a sensitive key masks the
scalars right under it, and those in a list under it. -/
def localWalk (marker : String) (keyIsSensitive : Bool) (keyName : Option String) :
    Json → Json
  | .arr xs => .arr (localItems marker keyIsSensitive keyName xs)
  | .obj ms => .obj (localMembers marker ms)
  | value => redactScalar marker keyIsSensitive keyName value

def localItems (marker : String) (keyIsSensitive : Bool) (keyName : Option String) :
    List Json → List Json
  | [] => []
  | x :: xs =>
      localWalk marker keyIsSensitive keyName x :: localItems marker keyIsSensitive keyName xs

def localMembers (marker : String) : List (String × Json) → List (String × Json)
  | [] => []
  | (k, v) :: ms =>
      (k, localWalk marker (isSensitiveKey k.toList) (some k) v) :: localMembers marker ms

end

/-- Mask secret-bearing scalars in nested values, by the key right above them. -/
def deepRedactLocal (j : Json) : Json :=
  localWalk REDACTED false none j

/-! ### The secret-safe serialization of `domain/_contracts.py` -/

/-- A lower-case hexadecimal digit. -/
def isHexDigit (c : Char) : Bool :=
  c.isDigit || ('a' ≤ c && c ≤ 'f')

/-- `sha256:` and 64 lower-case hexadecimal digits. -/
def isSha256 (cs : List Char) : Bool :=
  "sha256:".toList.isPrefixOf cs && (cs.drop 7).all isHexDigit && (cs.drop 7).length == 64

def FORBIDDEN_MAPPING_KEYS : List String :=
  ["nonce", "approval_nonce", "raw_nonce", "raw_approval_nonce", "secret_value",
    "secret_values", "stdout", "stderr", "output", "command_output", "subprocess_output"]

/-- Keys that never cross the kernel boundary. -/
def isForbiddenKey (key : String) : Bool :=
  FORBIDDEN_MAPPING_KEYS.any fun k => k.toList == PyText.lower key.toList

/-- A JSON string holding a digest. -/
def isDigestValue : Json → Bool
  | .str s => isSha256 s.toList
  | _ => false

/-- Digest metadata: a digest under a `*_digest` key or a list of them under a
`*_digests` key. -/
def isSafeDigestMetadata (key : String) (value : Json) : Bool :=
  let lowered := PyText.lower key.toList
  if PyText.endsWith "_digest".toList lowered then isDigestValue value
  else if PyText.endsWith "_digests".toList lowered then
    match value with
    | .arr xs => xs.all isDigestValue
    | _ => false
  else false

mutual

/-- Put digest metadata of the original back into its redacted form. Redaction keeps the
keys and the lengths, so the two are walked in step. -/
def restoreDigestMetadata : Json → Json → Json
  | .obj ms, .obj rs => .obj (restoreMembers ms rs)
  | .arr xs, .arr rs => .arr (restoreItems xs rs)
  | _, redacted => redacted

def restoreItems : List Json → List Json → List Json
  | x :: xs, r :: rs => restoreDigestMetadata x r :: restoreItems xs rs
  | _, _ => []

def restoreMembers : List (String × Json) → List (String × Json) → List (String × Json)
  | (k, v) :: ms, (_, r) :: rs =>
      (k, if isSafeDigestMetadata k v then v else restoreDigestMetadata v r) ::
        restoreMembers ms rs
  | _, rs => rs

end

/-- Redact secret material while retaining validated digest metadata. -/
def secretSafe (payload : Json) : Json :=
  restoreDigestMetadata payload (deepRedact payload)

mutual

/-- `_serialize` on plain values: mappings lose their forbidden keys and are made
secret-safe, from the inside out. -/
def serialize : Json → Json
  | .arr xs => .arr (serializeItems xs)
  | .obj ms => secretSafe (.obj (serializeMembers ms))
  | j => j

def serializeItems : List Json → List Json
  | [] => []
  | x :: xs => serialize x :: serializeItems xs

def serializeMembers : List (String × Json) → List (String × Json)
  | [] => []
  | (k, v) :: ms =>
      if isForbiddenKey k then serializeMembers ms
      else (k, serialize v) :: serializeMembers ms

end

/-- `canonical_json` of a plain value. -/
def canonicalJson (j : Json) : String :=
  (serialize j).dumps

end Ophelia
