import Mathlib.Data.Nat.Notation

set_option autoImplicit false

/-!
# Tool errors

The closed set of error codes, with the one message each code has, and the error values that
cross the protocol boundary.
-/

namespace FigmaDevMcp

/-- The stable codes of errors. -/
inductive ErrorCode where
  | noFigmaConnection
  | ambiguousConnection
  | connectionNotFound
  | connectionLost
  | protocolMismatch
  | nodeNotFound
  | nodeNotVisible
  | pageNotFound
  | unsupportedNode
  | emptyNodeBounds
  | capabilityUnavailable
  | unsafeSvg
  | invalidCursor
  | limitExceeded
  | timeout
  | cancelled
  | internalError
  deriving DecidableEq, Repr

/-- The failure of one item of a batch. -/
structure ItemError where
  index : ℕ
  id : Option String
  code : ErrorCode
  retryable : Bool
  deriving DecidableEq, Repr

/-- An error of a tool, whose message is that of its code. -/
structure ToolError where
  code : ErrorCode
  retryable : Bool
  items : Option (List ItemError)
  deriving DecidableEq, Repr

namespace ToolError

/-- An error without items. -/
def new (code : ErrorCode) (retryable : Bool) : ToolError := ⟨code, retryable, none⟩

end ToolError

end FigmaDevMcp
