import Ulmix.Lib.Exec
/-!
# Mutexes (`kernel/sched/sync.c`)

There is no scheduler yet, so a held lock is waited for by jumping back to the
test: on one thread that never ends.
-/
open Ulmix.Lib

namespace Ulmix.Sync

/-- `struct mutex_struct`: the flag, and the tasks waiting, next one first. -/
structure Mutex where
  locked : Nat
  waiting : List Nat
  deriving DecidableEq, Repr

def mutex_init : Exec Mutex Unit := modify fun _ => { locked := 0, waiting := [] }

def mutex_lock : Exec Mutex Unit := do
  let mtx ← get
  if mtx.locked ≠ 0 then
    -- `goto check_mutex`, and nobody else runs
    Exec.fault .spin
  else
    modify fun mtx => { mtx with locked := 1 }

def mutex_unlock : Exec Mutex Unit :=
  -- the first waiting task, if any, leaves the queue
  modify fun mtx => { locked := 0, waiting := mtx.waiting.tail }

theorem mutex_lock_free {m : Mutex} (h : m.locked = 0) : mutex_lock m = .ok ((), { m with locked := 1 }) := by
  simp [mutex_lock, Exec.bind_apply, h]

theorem mutex_unlock_eq (m : Mutex) : mutex_unlock m = .ok ((), { locked := 0, waiting := m.waiting.tail }) := rfl

end Ulmix.Sync
