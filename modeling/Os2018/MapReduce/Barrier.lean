import Mathlib.Data.Nat.Notation

/-!
# The barrier

`Barrier::barrier` runs under the mutex of the barrier. A caller that is not the
last one waits on the condition variable, which gives the mutex back; the last
one resets the count and wakes those that wait.
-/

set_option autoImplicit false

namespace Os2018.MapReduce

structure Barrier where
  count : Nat
  numThreads : Nat
deriving DecidableEq, Repr

namespace Barrier

def init (numThreads : Nat) : Barrier where
  count := 0
  numThreads := numThreads

/-- The body of `barrier()` up to the wait or the broadcast. The flag says that
the caller waits. -/
def enter (barrier : Barrier) : Barrier × Bool :=
  if barrier.count + 1 < barrier.numThreads then
    ({ barrier with count := barrier.count + 1 }, true)
  else ({ barrier with count := 0 }, false)

end Barrier

end Os2018.MapReduce
