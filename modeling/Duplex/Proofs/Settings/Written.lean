/-
Duplex/Proofs/Settings/Written.lean

Written settings read back.

Options, bindings and settings are records, and every form in which one of them
may be written (`Record.IsForm`) is read as it:

    Record.IsForm s.parts v → Settings.read? v.write = some s

The parts of settings are records with forms of their own, so a section may be
an array in an object and the other way round.  A part that has its default may
be left out, and the port of a binding has another default in settings than it
has by itself.
-/
import Duplex.Proofs.Json.Forms
import Duplex.Proofs.Settings.Layering

namespace Duplex

open Record

/-! ### Options -/

namespace Options

/-- The parts of options as they are written. -/
def parts (o : Options) : List Slot :=
  [.plain "session_timeout_ms" (.nat o.sessionTimeout.toNat)
     (o.sessionTimeout = ({} : Options).sessionTimeout),
   .plain "heartbeat_period_ms" (.nat o.heartbeatPeriod.toNat)
     (o.heartbeatPeriod = ({} : Options).heartbeatPeriod),
   .plain "max_bytes_streaming" (.nat o.maxBytesStreaming.toNat)
     (o.maxBytesStreaming = ({} : Options).maxBytesStreaming),
   .plain "insert_jsessionid" (.bool o.insertCookie)
     (o.insertCookie = ({} : Options).insertCookie),
   .plain "websocket_enabled" (.bool o.websocketEnabled)
     (o.websocketEnabled = ({} : Options).websocketEnabled)]

theorem isForm_json (o : Options) : IsForm o.parts o.json := by
  apply IsForm.object
  apply Members.written
  exact .cons ⟨rfl, rfl⟩ (.cons ⟨rfl, rfl⟩ (.cons ⟨rfl, rfl⟩
    (.cons ⟨rfl, rfl⟩ (.cons ⟨rfl, rfl⟩ .nil))))

theorem fits (o : Options) : Fits {} fields o.parts {} o := by
  apply Fits.plain (Tree.word64?_nat o.sessionTimeout) (by intro h; rw [h])
  apply Fits.plain (Tree.word64?_nat o.heartbeatPeriod) (by intro h; rw [h])
  apply Fits.plain (Tree.word64?_nat o.maxBytesStreaming) (by intro h; rw [h])
  apply Fits.plain (Tree.flag?_bool o.insertCookie) (by intro h; rw [h])
  apply Fits.plain (Tree.flag?_bool o.websocketEnabled) (by intro h; rw [h])
  exact Fits.nil o

theorem readsAlike : ∀ f ∈ fields, f.ReadsAlike := by
  simp only [fields, List.forall_mem_cons, List.not_mem_nil, false_implies, implies_true, and_true]
  and_intros
  · exact Field.readsAlike_of Json.readsAlike_word64? _ _
  · exact Field.readsAlike_of Json.readsAlike_word64? _ _
  · exact Field.readsAlike_of Json.readsAlike_word64? _ _
  · exact Field.readsAlike_of Json.readsAlike_flag? _ _
  · exact Field.readsAlike_of Json.readsAlike_flag? _ _

theorem read?_form {o : Options} {v : Json} (hv : IsForm o.parts v) : read? v.write = some o :=
  o.fits.read?_write apart readsAlike hv

end Options

/-! ### Bindings -/

namespace Binding

/-- The parts of a binding as they are written where `start` is the default. -/
def parts (b start : Binding) : List Slot :=
  [.plain "host" (.text b.host) (b.host = start.host),
   .plain "port" (.nat b.port.toNat) (b.port = start.port)]

theorem isForm_json (b start : Binding) : IsForm (b.parts start) b.json := by
  apply IsForm.object
  apply Members.written
  exact .cons ⟨rfl, rfl⟩ (.cons ⟨rfl, rfl⟩ .nil)

theorem fits (b start : Binding) : Fits start fields (b.parts start) start b := by
  apply Fits.plain (Tree.str?_text b.host) (by intro h; rw [h])
  apply Fits.plain (Tree.word16?_nat b.port) (by intro h; rw [h])
  exact Fits.nil b

theorem readsAlike : ∀ f ∈ fields, f.ReadsAlike := by
  simp only [fields, List.forall_mem_cons, List.not_mem_nil, false_implies, implies_true, and_true]
  and_intros
  · exact Field.readsAlike_of Json.readsAlike_str? _ _
  · exact Field.readsAlike_of Json.readsAlike_word16? _ _

theorem read?_form {b : Binding} {v : Json} (hv : IsForm (b.parts {}) v) :
    read? v.write = some b :=
  (b.fits {}).read?_write apart readsAlike hv

end Binding

/-! ### Settings -/

namespace Logging

/-- The parts of the section as they are written. -/
def parts (l : Logging) : List Slot :=
  [.plain "level" (.text l.level) (l.level = ({} : Logging).level),
   .plain "json" (.bool l.asJson) (l.asJson = ({} : Logging).asJson)]

theorem isForm_json (l : Logging) : IsForm l.parts l.json := by
  apply IsForm.object
  apply Members.written
  exact .cons ⟨rfl, rfl⟩ (.cons ⟨rfl, rfl⟩ .nil)

theorem fits (l : Logging) : Fits {} fields l.parts {} l := by
  apply Fits.plain (Tree.str?_text l.level) (by intro h; rw [h])
  apply Fits.plain (Tree.flag?_bool l.asJson) (by intro h; rw [h])
  exact Fits.nil l

theorem readsAlike : ∀ f ∈ fields, f.ReadsAlike := by
  simp only [fields, List.forall_mem_cons, List.not_mem_nil, false_implies, implies_true, and_true]
  and_intros
  · exact Field.readsAlike_of Json.readsAlike_str? _ _
  · exact Field.readsAlike_of Json.readsAlike_flag? _ _

end Logging

namespace Settings

/-- The sections as they are written. -/
def parts (s : Settings) : List Slot :=
  [.record "server" (s.server.parts defaultBinding) (s.server = defaultBinding),
   .record "sockjs" s.options.parts (s.options = {}),
   .record "logging" s.logging.parts (s.logging = {})]

theorem isForm_json (s : Settings) : IsForm s.parts s.json := by
  apply IsForm.object
  apply Members.written
  exact .cons ⟨rfl, s.server.isForm_json defaultBinding⟩
    (.cons ⟨rfl, s.options.isForm_json⟩ (.cons ⟨rfl, s.logging.isForm_json⟩ .nil))

theorem fits (s : Settings) : Fits {} fields s.parts {} s := by
  apply Fits.record (s.server.fits defaultBinding) Binding.apart
    (s.server.isForm_json defaultBinding) (by intro h; rw [h])
  apply Fits.record s.options.fits Options.apart s.options.isForm_json (by intro h; rw [h])
  apply Fits.record s.logging.fits Logging.apart s.logging.isForm_json (by intro h; rw [h])
  exact Fits.nil s

theorem readsAlike : ∀ f ∈ fields, f.ReadsAlike := by
  simp only [fields, List.forall_mem_cons, List.not_mem_nil, false_implies, implies_true, and_true]
  and_intros
  · exact Field.readsAlike_of (Record.readsAlike_ofTree? Binding.readsAlike _) _ _
  · exact Field.readsAlike_of (Record.readsAlike_ofTree? Options.readsAlike _) _ _
  · exact Field.readsAlike_of (Record.readsAlike_ofTree? Logging.readsAlike _) _ _

theorem read?_form {s : Settings} {v : Json} (hv : IsForm s.parts v) : read? v.write = some s :=
  s.fits.read?_write apart readsAlike hv

/-- A text is read back from its text, as a value and as a part. -/
theorem read?_text (s : String) : Json.read? (Json.text s).write = some (.text s) ∧
    (Tree.read? (Json.text s).write.toList).bind Tree.str? = some s := by
  have htree : Tree.read? (Json.text s).write.toList = some (Json.text s).tree := by
    rw [Json.write, String.toList_ofList, Tree.read?_chars]
  constructor
  · rw [Json.read?, htree]
    show (Tree.string? (s.toList.map Quoted.glyph)).map Json.text = _
    rw [Tree.string?_glyphs, Option.map_some]
  · rw [htree, Option.bind_some, Json.tree]
    exact Tree.string?_glyphs s

/-- **What is written reads back.**  Options, bindings and settings are read back from the text
that is written for them and from the text of every other form they have, and the name of a
session is read back from its text. -/
theorem read?_written (o : Options) (b : Binding) (s : Settings) (id : String) :
    (Options.read? o.json.write = some o ∧
      ∀ v, IsForm o.parts v → Options.read? v.write = some o) ∧
    (Binding.read? b.json.write = some b ∧
      ∀ v, IsForm (b.parts {}) v → Binding.read? v.write = some b) ∧
    (read? s.json.write = some s ∧ ∀ v, IsForm s.parts v → read? v.write = some s) ∧
    Json.read? (Json.text id).write = some (.text id) ∧
      (Tree.read? (Json.text id).write.toList).bind Tree.str? = some id := by
  refine ⟨⟨?_, ?_⟩, ⟨?_, ?_⟩, ⟨?_, ?_⟩, read?_text id⟩
  · exact Options.read?_form o.isForm_json
  · exact fun v hv => Options.read?_form hv
  · exact Binding.read?_form (b.isForm_json {})
  · exact fun v hv => Binding.read?_form hv
  · exact read?_form s.isForm_json
  · exact fun v hv => read?_form hv

/-! ### Settings in another form -/

/-- Settings with a host that is not ASCII and with the largest number. -/
def sample : Settings where
  server := { host := "naïve.example", port := 8080 }
  options := { maxBytesStreaming := 18446744073709551615, insertCookie := false }

/-- The section without the port, which has its default, and with a member more. -/
def sampleServer : Json := .object [("", .bool true), ("host", .text "naïve.example")]

/-- The options as an array. -/
def sampleOptions : Json :=
  .array [.nat 5000, .nat 25000, .nat 18446744073709551615, .bool false, .bool true]

/-- The sections turned around, without the one that has its default, and with a member more. -/
def sampleForm : Json :=
  .object
    [("note", .array [.null, .object [("host", .nat 1), ("host", .number (.real ⟨true, .zero⟩))]]),
     ("sockjs", sampleOptions), ("server", sampleServer)]

theorem isForm_sampleServer : IsForm (sample.server.parts defaultBinding) sampleServer := by
  have hwritten : Members (sample.server.parts defaultBinding)
      [("host", .text "naïve.example"), ("port", .nat 8080)] :=
    .written (.cons ⟨rfl, rfl⟩ (.cons ⟨rfl, rfl⟩ .nil))
  have hhost : Members (sample.server.parts defaultBinding) [("host", .text "naïve.example")] :=
    .leftOut (hwritten.permuted (.swap ..)) (.tail _ (.head _)) rfl
  exact .object (hhost.unknown (by simp [Binding.parts, Slot.plain]) _)

theorem isForm_sampleOptions : IsForm sample.options.parts sampleOptions :=
  .array (.cons rfl (.cons rfl (.cons rfl (.cons rfl (.cons rfl .nil)))))

theorem isForm_sample : IsForm sample.parts sampleForm := by
  have hwritten : Members sample.parts
      [("server", sampleServer), ("sockjs", sampleOptions), ("logging", Logging.json {})] :=
    .written (.cons ⟨rfl, isForm_sampleServer⟩
      (.cons ⟨rfl, isForm_sampleOptions⟩ (.cons ⟨rfl, Logging.isForm_json {}⟩ .nil)))
  have hturned : Members sample.parts
      [("logging", Logging.json {}), ("sockjs", sampleOptions), ("server", sampleServer)] :=
    hwritten.permuted (List.reverse_perm _).symm
  have hleft : Members sample.parts [("sockjs", sampleOptions), ("server", sampleServer)] :=
    .leftOut hturned (.tail _ (.tail _ (.head _))) rfl
  exact .object (hleft.unknown (by simp [parts, Slot.record]) _)

/-- The settings are read from their other form. -/
theorem read?_written_sample :
    IsForm sample.parts sampleForm ∧ read? sampleForm.write = some sample := by
  have hread := read?_written {} {} sample "naïve"
  exact ⟨isForm_sample, hread.2.2.1.2 sampleForm isForm_sample⟩

end Settings

end Duplex
