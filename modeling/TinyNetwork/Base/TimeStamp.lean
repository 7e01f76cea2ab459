import Mathlib.Data.Int.Notation

/-!
# `class TimeStamp` (src/base/TimeStamp.h)
-/

namespace TinyNetwork

/-- `class TimeStamp`: microseconds since the epoch. -/
abbrev TimeStamp := ℤ

def kMicroSecondsPerSecond : ℤ := 1000 * 1000

theorem kMicroSecondsPerSecond_eq : kMicroSecondsPerSecond = 1000000 := rfl

/-- `addTime`; `delta` is the number of microseconds in its `double` argument. -/
def addTime (timestamp : TimeStamp) (delta : ℤ) : TimeStamp := timestamp + delta

end TinyNetwork
