import Mathlib.Algebra.Ring.Nat

set_option autoImplicit false

/-!
# Limits

The fixed upper bounds of the protocol crate that the model reads. The plugin keeps a copy of those it
uses.
-/

namespace FigmaDevMcp

/-- The requests of a session that are in flight. -/
def maxInFlight : ℕ := 4

/-- The requests of a session that wait. -/
def maxQueue : ℕ := 16

/-- The bytes of a message. -/
def maxEnvelopeBytes : ℕ := 24 * 1024 * 1024

/-- The depth of a forest. -/
def maxDepth : ℕ := 6

/-- The ids of an input. -/
def maxInputIds : ℕ := 2000

/-- The pages of a selector. -/
def maxPageIds : ℕ := 100

/-- The bytes of an id. -/
def maxIdentifierBytes : ℕ := 256

/-- The bytes of a query. -/
def maxQueryBytes : ℕ := 1024

/-- The bytes of a cursor. -/
def maxSearchCursorBytes : ℕ := 64 * 1024

/-- The bytes of a text that is shown. -/
def maxDisplayTextBytes : ℕ := 1024

/-- The nodes that a read visits. -/
def maxVisitedNodes : ℕ := 10000

/-- The nodes that a read returns. -/
def maxReturnedNodes : ℕ := 2000

/-- The bytes of the text of a result. -/
def maxTextBytes : ℕ := 8 * 1024 * 1024

/-- The bytes of a raster image. -/
def maxRasterDecodedBytes : ℕ := 12 * 1024 * 1024

/-- The letters of a raster image in base64. -/
def maxRasterBase64Bytes : ℕ := 16 * 1024 * 1024

/-- The bytes of a document. -/
def maxSvgBytes : ℕ := 4 * 1024 * 1024

/-- The seconds in which a request must make progress. -/
def inactivityTimeoutSecs : ℕ := 15

/-- The seconds in which a request must end. -/
def totalTimeoutSecs : ℕ := 120

end FigmaDevMcp
