/-
Duplex/Settings/Layers.lean

Settings in layers: defaults, a file over them, the environment over both.

The file is laid over the defaults as a value, member by member, before the
result is read as settings; a null in the file leaves the default as it is.
Then options out of range go back to their defaults. The environment comes
last and is held to the same ranges, but there a bad value is passed over.

Main definitions: `Options.clamp`, `Document`, `Settings.ofDocument`,
`Settings.override`, `Settings.load`, `Settings.path`.
-/
import Duplex.Json.Merge
import Duplex.Settings.Basic
import Duplex.Text.Utf8

namespace Duplex

/-! ### Ranges -/

/-- The longest duration that settings may ask for, one day. -/
def maxDuration : Nat := 86400000

/-- The most bytes that settings may ask a response to carry. -/
def maxStreaming : Nat := 1073741824

/-- A value from 1 to `most`, or else the default. -/
def clampTo (most : Nat) (value default : UInt64) : UInt64 :=
  if 1 ≤ value.toNat ∧ value.toNat ≤ most then value else default

/-- The options with what is out of range at its default. -/
def Options.clamp (o : Options) : Options :=
  let d : Options := {}
  { o with
    sessionTimeout := clampTo maxDuration o.sessionTimeout d.sessionTimeout
    heartbeatPeriod := clampTo maxDuration o.heartbeatPeriod d.heartbeatPeriod
    maxBytesStreaming := clampTo maxStreaming o.maxBytesStreaming d.maxBytesStreaming }

/-! ### The file -/

/-- A settings file as it is found. -/
inductive Document where
  | absent
  | unreadable
  | content (bytes : Text.Bytes)
  deriving DecidableEq, Repr

/-- Why settings cannot be loaded. -/
inductive LoadError where
  | unreadable
  | malformed
  deriving DecidableEq, Repr

/-- The cause in words. -/
def LoadError.message : LoadError → String
  | .unreadable => "failed to read settings file"
  | .malformed => "failed to parse settings JSON"

namespace Settings

/-- The settings that a value holds when it is laid over the defaults. -/
def ofJson? (v : Json) : Option Settings :=
  (ofTree? (Tree.ofJson (Json.merge (json {}) v))).map fun s =>
    { s with options := s.options.clamp }

/-- The settings of a file. -/
def ofDocument : Document → Except LoadError Settings
  | .absent => .ok {}
  | .unreadable => .error .unreadable
  | .content bytes =>
    match Text.Utf8.text? bytes with
    | none => .error .unreadable
    | some text =>
      match (Json.read? text).bind ofJson? with
      | none => .error .malformed
      | some s => .ok s

/-! ### The environment -/

/-- A truth value in words, in either case. -/
def flag? (text : String) : Option Bool :=
  let word := String.ofList (text.toList.map Char.toLower)
  if ["true", "1", "yes", "on"].contains word then some true
  else if ["false", "0", "no", "off"].contains word then some false
  else none

/-- Variables by name. -/
abbrev Environment := String → Option String

/-- The variables that settings are read from. -/
def variableNames : List String :=
  ["SOCKJS_HOST", "SOCKJS_PORT", "SOCKJS_SESSION_TIMEOUT_MS", "SOCKJS_HEARTBEAT_MS",
   "SOCKJS_MAX_BYTES_STREAMING", "SOCKJS_INSERT_JSESSIONID", "SOCKJS_WEBSOCKET_ENABLED",
   "SOCKJS_LOG_LEVEL", "SOCKJS_LOG_JSON"]

namespace Environment

/-- A variable that is not empty. -/
def text? (env : Environment) (name : String) : Option String :=
  (env name).filter fun v => !v.isEmpty

/-- A variable that holds a number in range. -/
def number? (env : Environment) (name : String) (least most : Nat) : Option Nat :=
  (env name).bind fun v => Text.Decimal.inRange? v least most

/-- A variable that holds a truth value. -/
def flag? (env : Environment) (name : String) : Option Bool := (env name).bind Settings.flag?

end Environment

/-- The settings with the environment laid over them. -/
def override (env : Environment) (s : Settings) : Settings :=
  let duration (name : String) (old : UInt64) : UInt64 :=
    ((env.number? name 1 maxDuration).map UInt64.ofNat).getD old
  { server :=
      { host := (env.text? "SOCKJS_HOST").getD s.server.host
        port :=
          ((env.number? "SOCKJS_PORT" 0 Text.Decimal.maxWord16).map UInt16.ofNat).getD
            s.server.port }
    options :=
      { sessionTimeout := duration "SOCKJS_SESSION_TIMEOUT_MS" s.options.sessionTimeout
        heartbeatPeriod := duration "SOCKJS_HEARTBEAT_MS" s.options.heartbeatPeriod
        maxBytesStreaming :=
          ((env.number? "SOCKJS_MAX_BYTES_STREAMING" 1 maxStreaming).map UInt64.ofNat).getD
            s.options.maxBytesStreaming
        insertCookie :=
          (env.flag? "SOCKJS_INSERT_JSESSIONID").getD s.options.insertCookie
        websocketEnabled :=
          (env.flag? "SOCKJS_WEBSOCKET_ENABLED").getD s.options.websocketEnabled }
    logging :=
      { level := (env.text? "SOCKJS_LOG_LEVEL").getD s.logging.level
        asJson := (env.flag? "SOCKJS_LOG_JSON").getD s.logging.asJson } }

/-- The settings of a file with the environment laid over them. -/
def load (file : Document) (env : Environment) : Except LoadError Settings :=
  (ofDocument file).map (override env)

/-- Where the settings file is looked for, under the home directory if there is one. -/
def path (home : Option String) : String :=
  let home := home.getD "/tmp"
  if home.isEmpty || home.endsWith "/" then home ++ ".sockjs/settings.json"
  else home ++ "/.sockjs/settings.json"

end Settings

end Duplex
