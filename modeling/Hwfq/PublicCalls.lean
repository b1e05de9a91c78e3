import Hwfq.Configuration
import Hwfq.GuardedRuns

/-!
# The public interface as a machine

One input for each public function with its arguments; a NULL pointer is `none` or
`false`. `now` is the reading of the monotonic clock that the call makes. The
scheduler argument is never NULL: such a call returns before it touches anything.
-/
namespace Hwfq
open GuardedRuns

inductive Call where
  | addTenant (allocation : Option Allocation) (tenantIdOut : Bool)
  | configureTenant (tenantId : UInt32) (allocation : Option Allocation)
  | removeTenant (tenantId : UInt32)
  | addFlow (tenantId : UInt32) (allocation : Option Allocation) (flowIdOut : Bool)
  | reconfigureFlow (tenantId flowId : UInt32) (allocation : Option Allocation)
  | removeFlow (tenantId flowId : UInt32)
  | enqueue (tenantId flowId : UInt32) (work : Option Session) (now : UInt64)
  | dequeue (workOut : Bool) (now : UInt64)
  | complete (tenantId flowId : UInt32) (work : Option Session)
  | cancel (tenantId flowId : UInt32) (work : Option Session)
  | checkTimeouts (currentTimeNs : UInt64)
  | resetStats (tenantId flowId : UInt32)
deriving DecidableEq, Repr

/-- What a call returns. -/
structure Response where
  status : Status := .success
  id : Option ℕ := none
  delivery : Option Delivery := none
  timeoutCount : ℕ := 0
  callbacks : List Callback := []
deriving DecidableEq, Repr

def exec (s : Scheduler) : Call → Response × Scheduler
  | .addTenant a out =>
      let (status, id, s) := hwfqAddTenant s a out
      ({ status := status, id := id }, s)
  | .configureTenant t a =>
      let (status, s) := hwfqConfigureTenant s t.toNat a
      ({ status := status }, s)
  | .removeTenant t =>
      let (status, callbacks, s) := hwfqRemoveTenant s t.toNat
      ({ status := status, callbacks := callbacks }, s)
  | .addFlow t a out =>
      let (status, id, s) := hwfqAddFlow s t.toNat a out
      ({ status := status, id := id }, s)
  | .reconfigureFlow t f a =>
      let (status, s) := hwfqReconfigureFlow s t.toNat f.toNat a
      ({ status := status }, s)
  | .removeFlow t f =>
      let (status, s) := hwfqRemoveFlow s t.toNat f.toNat
      ({ status := status }, s)
  | .enqueue t f work now =>
      let (status, callbacks, s) := hwfqEnqueue s t.toNat f.toNat work now.toNat
      ({ status := status, callbacks := callbacks }, s)
  | .dequeue workOut now =>
      let (status, delivery, s) := hwfqDequeue s workOut now.toNat
      ({ status := status, delivery := delivery }, s)
  | .complete t f work =>
      let (status, callbacks, s) := hwfqComplete s work t.toNat f.toNat
      ({ status := status, callbacks := callbacks }, s)
  | .cancel t f work =>
      let (status, callbacks, s) := hwfqCancel s work t.toNat f.toNat
      ({ status := status, callbacks := callbacks }, s)
  | .checkTimeouts now =>
      let (count, callbacks, s) := hwfqCheckTimeouts s now.toNat
      ({ timeoutCount := count, callbacks := callbacks }, s)
  | .resetStats t f => ({}, hwfqResetStats s t.toNat f.toNat)

/-- The state after a call. -/
def after (s : Scheduler) (c : Call) : Scheduler := (exec s c).2

/-- The response to a call. -/
def respond (s : Scheduler) (c : Call) : Response := (exec s c).1

/-- `s` was just made by `hwfq_init`. -/
def Made (s : Scheduler) : Prop := ∃ mem config, hwfqInit mem config = (.success, some s)

end Hwfq
