/-
Duplex/Proofs/Settings/Environment.lean

What the environment makes of settings.

There are nine settings, each with a variable of its own (`Setting`).  A
variable counts when its text is of the kind that the setting asks for
(`Kind.Accepts`): some text, a number in range, or a truth value in words.  What
the environment comes to is said by one equation (`get_override`):

  setting after override  =  what its variable says, if that counts,
                             or else the setting before.

A setting that a file gives is held to the same ranges, but as a number and not
as a text: what is out of range goes back to its default (`clamping`).  So
whatever is loaded is in range, wherever it comes from.
-/
import Duplex.Proofs.Settings.Layering
import Duplex.Proofs.Text.Numerals

namespace Duplex

open Text.Decimal (Names inRange? inRange?_eq_some_iff maxWord64)

/-! ### The nine settings -/

/-- One setting. -/
inductive Setting where
  | host
  | port
  | sessionTimeout
  | heartbeatPeriod
  | maxBytesStreaming
  | insertCookie
  | websocketEnabled
  | logLevel
  | logAsJson
  deriving DecidableEq

namespace Setting

/-- What a setting holds. -/
inductive Value where
  | text (value : String)
  | number (value : Nat)
  | flag (value : Bool)
  deriving DecidableEq

/-- What a setting asks of a text. -/
inductive Kind where
  /-- Not to be empty. -/
  | text
  /-- To name a number in range. -/
  | number (least most : Nat)
  /-- To be a word for a truth value. -/
  | flag

/-- The words for a truth value. -/
def words : Bool → List String
  | true => ["true", "1", "yes", "on"]
  | false => ["false", "0", "no", "off"]

/-- The text counts for a setting of that kind, and this is the value that it stands for. -/
inductive Kind.Accepts : Kind → String → Value → Prop
  | text {t : String} (some : t ≠ "") : Accepts .text t (.text t)
  | number {t : String} {n least most : Nat} (names : Names t n) (least_le : least ≤ n)
      (le_most : n ≤ most) : Accepts (.number least most) t (.number n)
  | flag {t : String} {b : Bool} (word : String.ofList (t.toList.map Char.toLower) ∈ words b) :
      Accepts .flag t (.flag b)

/-- The value is in range for a setting of that kind. -/
def Kind.Holds : Kind → Value → Prop
  | .number least most, .number n => least ≤ n ∧ n ≤ most
  | _, _ => True

/-- The variable for the setting. -/
def name : Setting → String
  | .host => "SOCKJS_HOST"
  | .port => "SOCKJS_PORT"
  | .sessionTimeout => "SOCKJS_SESSION_TIMEOUT_MS"
  | .heartbeatPeriod => "SOCKJS_HEARTBEAT_MS"
  | .maxBytesStreaming => "SOCKJS_MAX_BYTES_STREAMING"
  | .insertCookie => "SOCKJS_INSERT_JSESSIONID"
  | .websocketEnabled => "SOCKJS_WEBSOCKET_ENABLED"
  | .logLevel => "SOCKJS_LOG_LEVEL"
  | .logAsJson => "SOCKJS_LOG_JSON"

def kind : Setting → Kind
  | .host | .logLevel => .text
  | .port => .number 0 65535
  | .sessionTimeout | .heartbeatPeriod => .number 1 86400000
  | .maxBytesStreaming => .number 1 1073741824
  | .insertCookie | .websocketEnabled | .logAsJson => .flag

/-- What the setting holds. -/
def get (s : Settings) : Setting → Value
  | .host => .text s.server.host
  | .port => .number s.server.port.toNat
  | .sessionTimeout => .number s.options.sessionTimeout.toNat
  | .heartbeatPeriod => .number s.options.heartbeatPeriod.toNat
  | .maxBytesStreaming => .number s.options.maxBytesStreaming.toNat
  | .insertCookie => .flag s.options.insertCookie
  | .websocketEnabled => .flag s.options.websocketEnabled
  | .logLevel => .text s.logging.level
  | .logAsJson => .flag s.logging.asJson

theorem name_mem (x : Setting) : x.name ∈ Settings.variableNames := by
  cases x <;> decide

theorem name_injective {x y : Setting} (h : x.name = y.name) : x = y := by
  revert h
  cases x <;> cases y <;> decide

/-- There is nothing in settings but the nine. -/
theorem ext_get {s s' : Settings} (h : ∀ x : Setting, x.get s = x.get s') : s = s' := by
  obtain ⟨⟨host, port⟩, ⟨timeout, period, most, cookie, websocket⟩, ⟨level, asJson⟩⟩ := s
  obtain ⟨⟨host', port'⟩, ⟨timeout', period', most', cookie', websocket'⟩, ⟨level', asJson'⟩⟩ := s'
  obtain rfl : host = host' := Value.text.inj (h .host)
  obtain rfl : port = port' := UInt16.toNat_inj.mp (Value.number.inj (h .port))
  obtain rfl : timeout = timeout' := UInt64.toNat_inj.mp (Value.number.inj (h .sessionTimeout))
  obtain rfl : period = period' := UInt64.toNat_inj.mp (Value.number.inj (h .heartbeatPeriod))
  obtain rfl : most = most' := UInt64.toNat_inj.mp (Value.number.inj (h .maxBytesStreaming))
  obtain rfl : cookie = cookie' := Value.flag.inj (h .insertCookie)
  obtain rfl : websocket = websocket' := Value.flag.inj (h .websocketEnabled)
  obtain rfl : level = level' := Value.text.inj (h .logLevel)
  obtain rfl : asJson = asJson' := Value.flag.inj (h .logAsJson)
  rfl

/-! ### Texts that count -/

/-- The value that a text stands for. -/
def Kind.read? : Kind → String → Option Value
  | .text, t => if t.isEmpty then none else some (.text t)
  | .number least most, t => (inRange? t least most).map .number
  | .flag, t => (Settings.flag? t).map .flag

theorem flag?_eq_some_iff {t : String} {b : Bool} :
    Settings.flag? t = some b ↔ String.ofList (t.toList.map Char.toLower) ∈ words b := by
  unfold Settings.flag?
  generalize String.ofList (t.toList.map Char.toLower) = word
  show (if (words true).contains word then some true
    else if (words false).contains word then some false else none) = some b ↔ word ∈ words b
  -- no word says both
  have apart : ∀ word ∈ words true, word ∉ words false := by decide
  simp only [List.contains_iff_mem]
  cases b with
  | true =>
    split
    · rename_i h
      exact ⟨fun _ => h, fun _ => rfl⟩
    · rename_i h
      constructor
      · intro he
        split at he
        · cases he
        · cases he
      · intro ht
        exact absurd ht h
  | false =>
    split
    · rename_i h
      constructor
      · intro he
        cases he
      · intro hf
        exact absurd hf (apart word h)
    · simp

/-- **A text is read as the value that it stands for**, if it counts. -/
theorem Kind.read?_eq_some_iff {k : Kind} {t : String} {v : Value}
    (hk : ∀ least most, k = .number least most → most ≤ maxWord64) :
    k.read? t = some v ↔ k.Accepts t v := by
  constructor
  · intro h
    cases k with
    | text =>
      simp only [Kind.read?] at h
      split at h
      · cases h
      · rename_i hne
        obtain rfl := Option.some.inj h
        exact .text (by simpa using hne)
    | number least most =>
      obtain ⟨n, hn, rfl⟩ := Option.map_eq_some_iff.mp h
      obtain ⟨hnames, hleast, hmost⟩ := (inRange?_eq_some_iff (hk _ _ rfl)).mp hn
      exact .number hnames hleast hmost
    | flag =>
      obtain ⟨b, hb, rfl⟩ := Option.map_eq_some_iff.mp h
      exact .flag (flag?_eq_some_iff.mp hb)
  · intro h
    cases h with
    | text hne => simp [Kind.read?, hne]
    | number hnames hleast hmost =>
      have hn := (inRange?_eq_some_iff (hk _ _ rfl)).mpr ⟨hnames, hleast, hmost⟩
      simp only [Kind.read?, hn, Option.map_some]
    | flag hword => simp only [Kind.read?, flag?_eq_some_iff.mpr hword, Option.map_some]

theorem most_le (x : Setting) (least most : Nat) (h : x.kind = .number least most) :
    most ≤ maxWord64 := by
  cases x <;> cases h <;> decide

/-- A value that a text stands for is in range. -/
theorem Kind.Accepts.holds {k : Kind} {t : String} {v : Value} (h : k.Accepts t v) : k.Holds v := by
  cases h with
  | text | flag => trivial
  | number _ hleast hmost => exact ⟨hleast, hmost⟩

/-! ### The environment over the settings -/

/-- What the variable for a setting says, if it counts. -/
def said? (env : Settings.Environment) (x : Setting) : Option Value :=
  (env x.name).bind x.kind.read?

variable {env env' : Settings.Environment} {s : Settings} {x y : Setting} {t : String} {v : Value}

theorem said?_eq_some_iff :
    x.said? env = some v ↔ ∃ t, env x.name = some t ∧ x.kind.Accepts t v := by
  rw [said?, Option.bind_eq_some_iff]
  simp only [Kind.read?_eq_some_iff x.most_le]

/-- Text, number and truth value of a variable, as the settings read them. -/
theorem bind_read?_text (env : Settings.Environment) (name : String) :
    (env name).bind Kind.text.read? = (env.text? name).map .text := by
  rcases h : env name with - | t
  · simp [Settings.Environment.text?, h]
  · rcases he : t.isEmpty with - | -
    · simp [Settings.Environment.text?, h, Kind.read?, he, Option.filter]
    · simp [Settings.Environment.text?, h, Kind.read?, he, Option.filter]

theorem bind_read?_number (env : Settings.Environment) (name : String) (least most : Nat) :
    (env name).bind (Kind.number least most).read? =
      (env.number? name least most).map .number := by
  rcases h : env name with - | t
  · simp [Settings.Environment.number?, h]
  · simp [Settings.Environment.number?, h, Kind.read?]

theorem bind_read?_flag (env : Settings.Environment) (name : String) :
    (env name).bind Kind.flag.read? = (env.flag? name).map .flag := by
  rcases h : env name with - | t
  · simp [Settings.Environment.flag?, h]
  · simp [Settings.Environment.flag?, h, Kind.read?]

theorem le_of_number? {name : String} {least most n : Nat}
    (h : env.number? name least most = some n) : n ≤ most := by
  obtain ⟨t, -, hn⟩ := Option.bind_eq_some_iff.mp h
  have hin := (Option.filter_eq_some_iff.mp hn).2
  simp only [Bool.and_eq_true, decide_eq_true_eq] at hin
  exact hin.2

/-- A number goes into a word and comes out the same, if the word has room for it. -/
theorem number_getD {α : Type} {ofNat : Nat → α} {toNat : α → Nat} {o : Option Nat}
    (h : ∀ n, o = some n → toNat (ofNat n) = n) (old : α) :
    Value.number (toNat ((o.map ofNat).getD old)) =
      (o.map .number).getD (.number (toNat old)) := by
  rcases o with - | n
  · rfl
  · exact congrArg Value.number (h n rfl)

/-- **A setting is what its variable says**, if that counts, or else what it was before. -/
theorem get_override (env : Settings.Environment) (s : Settings) (x : Setting) :
    x.get (s.override env) = (x.said? env).getD (x.get s) := by
  have word64 {name : String} {least most : Nat} (hm : most ≤ maxWord64) (n : Nat)
      (hn : env.number? name least most = some n) : (UInt64.ofNat n).toNat = n :=
    UInt64.toNat_ofNat_of_lt' (Nat.lt_succ_of_le (Nat.le_trans (le_of_number? hn) hm))
  unfold said?
  cases x with
  | host | logLevel =>
    simp only [name, kind, get, Settings.override, bind_read?_text, Option.getD_map]
  | insertCookie | websocketEnabled | logAsJson =>
    simp only [name, kind, get, Settings.override, bind_read?_flag, Option.getD_map]
  | port =>
    simp only [name, kind, get, bind_read?_number]
    exact number_getD
      (fun n hn => UInt16.toNat_ofNat_of_lt' (Nat.lt_succ_of_le (le_of_number? hn))) _
  | sessionTimeout | heartbeatPeriod | maxBytesStreaming =>
    simp only [name, kind, get, bind_read?_number]
    exact number_getD (word64 (by decide)) _

theorem get_override_of_accepts (ht : env x.name = some t) (h : x.kind.Accepts t v) :
    x.get (s.override env) = v := by
  rw [get_override, said?_eq_some_iff.mpr ⟨t, ht, h⟩, Option.getD_some]

theorem get_override_of_not_accepts
    (h : ∀ t v, env x.name = some t → ¬ x.kind.Accepts t v) :
    x.get (s.override env) = x.get s := by
  rcases hsaid : x.said? env with - | v
  · rw [get_override, hsaid, Option.getD_none]
  · obtain ⟨t, ht, ha⟩ := said?_eq_some_iff.mp hsaid
    exact absurd ha (h t v ht)

/-- A setting looks at no variable but its own. -/
theorem get_override_congr (h : env' x.name = env x.name) :
    x.get (s.override env') = x.get (s.override env) := by
  rw [get_override, get_override, said?, said?, h]

theorem override_override (env : Settings.Environment) (s : Settings) :
    (s.override env).override env = s.override env := by
  apply ext_get
  intro x
  rw [get_override, get_override]
  rcases x.said? env with - | v
  · rfl
  · rfl

/-- The environment leaves every setting in range that was in range. -/
theorem holds_override (env : Settings.Environment) (h : x.kind.Holds (x.get s)) :
    x.kind.Holds (x.get (s.override env)) := by
  rw [get_override]
  rcases hsaid : x.said? env with - | v
  · exact h
  · obtain ⟨t, -, ha⟩ := said?_eq_some_iff.mp hsaid
    exact ha.holds

/-! ### The file -/

/-- What is out of range goes back to its default, and nothing else changes. -/
structure Clamping (s : Settings) : Prop where
  kept : ∀ x : Setting, x.kind.Holds (x.get s) → x.get s.clamped = x.get s
  reset : ∀ x : Setting, ¬ x.kind.Holds (x.get s) → x.get s.clamped = x.get {}
  again : s.options.clamp.clamp = s.options.clamp

/-- Every default is in range. -/
theorem holds_default (x : Setting) : x.kind.Holds (x.get {}) := by
  cases x with
  | host | logLevel | insertCookie | websocketEnabled | logAsJson => trivial
  | port | sessionTimeout | heartbeatPeriod | maxBytesStreaming =>
    exact ⟨by decide, by decide⟩

theorem number_clampTo (most : Nat) (value default : UInt64) :
    ((Kind.number 1 most).Holds (.number value.toNat) →
      Value.number (clampTo most value default).toNat = .number value.toNat) ∧
    (¬ (Kind.number 1 most).Holds (.number value.toNat) →
      Value.number (clampTo most value default).toNat = .number default.toNat) := by
  constructor
  · intro h
    have hin : 1 ≤ value.toNat ∧ value.toNat ≤ most := h
    rw [clampTo, if_pos hin]
  · intro h
    have hout : ¬ (1 ≤ value.toNat ∧ value.toNat ≤ most) := h
    rw [clampTo, if_neg hout]

theorem get_clamped (s : Settings) (x : Setting) :
    (x.kind.Holds (x.get s) → x.get s.clamped = x.get s) ∧
      (¬ x.kind.Holds (x.get s) → x.get s.clamped = x.get {}) := by
  cases x with
  | host | logLevel | insertCookie | websocketEnabled | logAsJson =>
    exact ⟨fun _ => rfl, fun h => absurd trivial h⟩
  | port =>
    have hport : s.server.port.toNat < 65536 := s.server.port.toNat_lt
    exact ⟨fun _ => rfl, fun h => absurd ⟨Nat.zero_le _, Nat.le_of_lt_succ hport⟩ h⟩
  | sessionTimeout => exact number_clampTo _ _ _
  | heartbeatPeriod => exact number_clampTo _ _ _
  | maxBytesStreaming => exact number_clampTo _ _ _

theorem holds_clamped (s : Settings) (x : Setting) : x.kind.Holds (x.get s.clamped) := by
  by_cases h : x.kind.Holds (x.get s)
  · rw [(get_clamped s x).1 h]
    exact h
  · rw [(get_clamped s x).2 h]
    exact holds_default x

theorem clamped_clamped (s : Settings) : s.clamped.clamped = s.clamped := by
  apply ext_get
  intro x
  exact (get_clamped s.clamped x).1 (holds_clamped s x)

theorem clamping (s : Settings) : Clamping s where
  kept x := (get_clamped s x).1
  reset x := (get_clamped s x).2
  again := congrArg Settings.options (clamped_clamped s)

/-- Every setting of a file is in range. -/
theorem holds_of_ofDocument {file : Document} (h : Settings.ofDocument file = .ok s) :
    x.kind.Holds (x.get s) := by
  cases file with
  | absent =>
    obtain rfl := Except.ok.inj h
    exact holds_default x
  | unreadable => cases h
  | content bytes =>
    simp only [Settings.ofDocument] at h
    split at h
    · cases h
    · split at h
      · cases h
      · rename_i s' hs'
        obtain rfl := Except.ok.inj h
        obtain ⟨_, -, hjson⟩ := Option.bind_eq_some_iff.mp hs'
        obtain ⟨s₀, -, rfl⟩ := Option.map_eq_some_iff.mp hjson
        exact holds_clamped s₀ x

end Setting

/-! ### Loading -/

namespace Settings

/-- Loading gives settings exactly when the file does. -/
theorem load_eq_ok_iff {file : Document} {env : Environment} {s : Settings} :
    load file env = .ok s ↔ ∃ base, ofDocument file = .ok base ∧ base.override env = s := by
  unfold load
  rcases ofDocument file with e | base
  · simp [Except.map]
  · simp [Except.map]

/-- What loaded settings are: the environment over the file, each setting by itself. -/
structure Layered (file : Document) (env : Environment) (s : Settings) : Prop where
  sessionTimeout : 1 ≤ s.options.sessionTimeout.toNat ∧ s.options.sessionTimeout.toNat ≤ 86400000
  heartbeatPeriod :
    1 ≤ s.options.heartbeatPeriod.toNat ∧ s.options.heartbeatPeriod.toNat ≤ 86400000
  maxBytesStreaming :
    1 ≤ s.options.maxBytesStreaming.toNat ∧ s.options.maxBytesStreaming.toNat ≤ 1073741824
  /-- Every setting is what its variable says, if that counts, or else just what the file gives. -/
  each : ∃ base, ofDocument file = .ok base ∧ ∀ x : Setting,
    (∀ t v, env x.name = some t → x.kind.Accepts t v → x.get s = v) ∧
    ((∀ t v, env x.name = some t → ¬ x.kind.Accepts t v) → x.get s = x.get base)
  /-- There are no other settings. -/
  all : ∀ s', (∀ x : Setting, x.get s' = x.get s) → s' = s
  /-- A variable changes the setting that it is for, and no other. -/
  own : ∀ (y : Setting) (env' : Environment), (∀ name, name ≠ y.name → env' name = env name) →
    ∃ s', load file env' = .ok s' ∧ ∀ x, x ≠ y → x.get s' = x.get s
  /-- Variables of other names change nothing. -/
  others : ∀ env' : Environment, (∀ name ∈ variableNames, env' name = env name) →
    load file env' = .ok s
  /-- To lay the same environment over the settings again changes nothing. -/
  again : s.override env = s

/-- **The environment comes before the file, each setting by itself**, and both are held to the same
ranges. -/
theorem layered_of_load {file : Document} {env : Environment} {s : Settings}
    (h : load file env = .ok s) : Layered file env s ∧ ∀ s₀, Setting.Clamping s₀ := by
  obtain ⟨base, hbase, rfl⟩ := load_eq_ok_iff.mp h
  have holds (x : Setting) : x.kind.Holds (x.get (base.override env)) :=
    Setting.holds_override env (Setting.holds_of_ofDocument hbase)
  refine ⟨?_, Setting.clamping⟩
  exact {
    sessionTimeout := holds .sessionTimeout
    heartbeatPeriod := holds .heartbeatPeriod
    maxBytesStreaming := holds .maxBytesStreaming
    each := ⟨base, hbase, fun x =>
      ⟨fun t v => Setting.get_override_of_accepts, Setting.get_override_of_not_accepts⟩⟩
    all := fun s' => Setting.ext_get
    own := by
      intro y env' henv
      refine ⟨base.override env', load_eq_ok_iff.mpr ⟨base, hbase, rfl⟩, fun x hxy => ?_⟩
      apply Setting.get_override_congr
      exact henv x.name fun he => hxy (Setting.name_injective he)
    others := by
      intro env' henv
      refine load_eq_ok_iff.mpr ⟨base, hbase, ?_⟩
      apply Setting.ext_get
      intro x
      exact Setting.get_override_congr (henv x.name x.name_mem)
    again := Setting.override_override env base }

/-- A port between blanks, and a heartbeat period out of range. -/
def spaced : Environment
  | "SOCKJS_PORT" => some "\u00a0+09000\n"
  | "SOCKJS_HEARTBEAT_MS" => some "0"
  | _ => none

theorem layered_of_spaced :
    load .absent spaced = .ok { server := { port := 9000 } } ∧
      Layered .absent spaced { server := { port := 9000 } } := by
  have h : load .absent spaced = .ok { server := { port := 9000 } } := by
    decide +kernel
  exact ⟨h, (layered_of_load h).1⟩

end Settings

end Duplex
