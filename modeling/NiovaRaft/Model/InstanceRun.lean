import NiovaRaft.Base.Loop

/-!
# Running an instance

`raft_server_instance_run` starts the server, runs its main loop, and shuts it down.  Where the server
needs a bulk recovery, it recovers with everything shut down and starts again.

What the steps of an iteration return is an input.  An assertion that fails ends the process.
-/

namespace NiovaRaft

namespace InstanceRun

open Base

/-- `enum raft_process_state`. -/
inductive ProcessState where
  | booting | running | recovering | shutdown
deriving DecidableEq, Repr

/-- `RAFT_SERVER_RECOVERY_ATTEMPTS`. -/
def recoveryAttempts : Int := 100

def EUCLEAN : Int := 117

/-- What of `struct raft_instance` decides what is done next. -/
structure RunInstance where
  procState : ProcessState
  needsBulkRecovery : Bool
  successfulRecovery : Bool
deriving DecidableEq

/-- What the steps of an iteration return. -/
structure Outcomes where
  /-- `rib_backend_recover`. -/
  backendRecover : Int
  /-- `raft_net_instance_startup`. -/
  startup : Int
  /-- `raft_server_main_loop`, and whether a recovery was requested in it. -/
  mainLoop : Int
  requested : Bool
  /-- `raft_server_chkpt_prior_to_recovery`. -/
  chkptPriorToRecovery : Int
  /-- `raft_net_instance_shutdown`. -/
  shutdown : Int

/-- The instance, and the variables that outlive an iteration. -/
structure RunState where
  ri : RunInstance
  remainingRecoveryTries : Int
  rc : Int
deriving DecidableEq

/-- `raft_server_bulk_recovery`. -/
def bulkRecovery (o : Outcomes) (ri : RunInstance) : RunInstance × Int :=
  let procState := ri.procState
  let ri := { ri with procState := .recovering }
  let rc := o.backendRecover
  ({ ri with procState := procState }, rc)

/-- `raft_server_instance_init`, with `raft_server_instance_restore_init_values`. -/
def instanceInit (ri : RunInstance) : Option RunInstance :=
  if ri.procState = .booting then some ⟨.booting, false, ri.successfulRecovery⟩ else none

/-- `raft_net_instance_startup`.  `ri_shutdown_cb` is called when the one of the server fails. -/
def instanceStartup (o : Outcomes) (ri : RunInstance) : RunInstance × Int :=
  if o.startup = 0 then ({ ri with procState := .running }, 0)
  else ({ ri with procState := .shutdown }, o.startup)

/-- The part of an iteration after a startup that succeeds. -/
def runMainLoop (o : Outcomes) (st : RunState) : RunState :=
  let ri := { st.ri with needsBulkRecovery := o.requested }
  let rc := st.rc
  let rc :=
    if o.mainLoop ≠ 0 then (if rc ≠ 0 then rc else o.mainLoop)
    else if ri.needsBulkRecovery && o.chkptPriorToRecovery != 0 then
      (if rc ≠ 0 then rc else o.chkptPriorToRecovery)
    else rc
  let ri := { ri with procState := .shutdown }
  let rc := if o.shutdown ≠ 0 then (if rc = 0 then o.shutdown else rc) else rc
  let ri := if rc = 0 ∧ ri.needsBulkRecovery then { ri with procState := .booting } else ri
  { st with ri := ri, rc := rc }

/-- The condition of the loop. -/
def loopCondition (restartPostRecovery : Bool) (st : RunState) : LoopStep RunState (Option Int) :=
  if st.rc ≠ 0 then .stop (some st.rc)
  else if restartPostRecovery then .next st
  else if st.ri.needsBulkRecovery then
    let st := { st with remainingRecoveryTries := st.remainingRecoveryTries - 1 }
    if st.remainingRecoveryTries ≥ 0 then .next st else .stop (some st.rc)
  else .stop (some st.rc)

/-- The part of an iteration that starts the server. -/
def bootAndRun (o : Outcomes) (st : RunState) : LoopStep RunState (Option Int) :=
  match instanceInit st.ri with
  | none => .stop none
  | some ri =>
      let (ri, startupRc) := instanceStartup o ri
      if startupRc ≠ 0 then
        if startupRc = -EUCLEAN then
          -- an incomplete recovery
          loopCondition false { st with ri := { ri with needsBulkRecovery := true }, rc := 0 }
        else loopCondition false { st with ri := ri, rc := startupRc }
      else loopCondition false (runMainLoop o { st with ri := ri })

/-- An iteration of `raft_server_instance_run`. -/
def iteration (o : Outcomes) (st : RunState) : LoopStep RunState (Option Int) :=
  if st.ri.needsBulkRecovery then
    let (ri, rc) := bulkRecovery o st.ri
    if rc = 0 then
      loopCondition true
        ⟨{ ri with successfulRecovery := true, needsBulkRecovery := false }, recoveryAttempts, rc⟩
    else bootAndRun o { st with ri := ri, rc := rc }
  else bootAndRun o st

/-- `raft_server_instance_run` on an instance, with what happens in each iteration. -/
def runs (os : Nat → Outcomes) (k : Nat) (st : RunState) : LoopStep RunState (Option Int) :=
  iteration (os k) st

/-- The variables at first. -/
def enter (ri : RunInstance) : RunState := ⟨ri, recoveryAttempts, 0⟩

end InstanceRun

end NiovaRaft
