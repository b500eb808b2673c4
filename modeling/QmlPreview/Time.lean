/-!
Points in time, as files record them.
-/

namespace QmlPreview

/-- A point in time: nanoseconds since the start of 1970, negative before it. -/
structure Time where
  nanoseconds : Int
  deriving DecidableEq, Repr

namespace Time

/-- The start of 1970. -/
def epoch : Time := ⟨0⟩

end Time

end QmlPreview
