/-
Duplex/Refusal.lean

Why a request or a write is refused.

A refused request is answered with a fixed status and a fixed body for each
cause. A write is refused for one cause only: the session is closed.

Main definitions: `Refusal` with `status`, `body`, `kind` and `message`, and
`WriteError`.
-/

namespace Duplex

/-- Why a request is refused. -/
inductive Refusal where
  | malformedFrame
  | payloadExpected
  | invalidContentType
  | missingCallback
  | unknownSession
  deriving DecidableEq, Repr

namespace Refusal

/-- The status of the answer. -/
def status : Refusal → Nat
  | .unknownSession => 404
  | _ => 500

/-- The body of the answer. -/
def body : Refusal → String
  | .malformedFrame => "Broken JSON encoding."
  | .payloadExpected => "Payload expected."
  | .invalidContentType => "Invalid Content-Type"
  | .missingCallback => "\"callback\" parameter required\n"
  | .unknownSession => ""

/-- The word for the cause in a log. -/
def kind : Refusal → String
  | .malformedFrame => "malformed_frame"
  | .payloadExpected => "payload_expected"
  | .invalidContentType => "invalid_content_type"
  | .missingCallback => "missing_callback"
  | .unknownSession => "unknown_session"

/-- The cause in words. -/
def message : Refusal → String
  | .malformedFrame => "broken JSON encoding"
  | .payloadExpected => "payload expected"
  | .invalidContentType => "invalid content type"
  | .missingCallback => "callback parameter required"
  | .unknownSession => "unknown or closed session"

end Refusal

/-- Why a write is refused. -/
inductive WriteError where
  | closed
  deriving DecidableEq, Repr

/-- The cause in words. -/
def WriteError.message : WriteError → String
  | .closed => "socket closed"

end Duplex
