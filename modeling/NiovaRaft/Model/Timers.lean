import NiovaRaft.Base.CString
import NiovaRaft.Base.Decimal
import NiovaRaft.Model.Types

/-!
# The tunables of the timers

The election timeout and the number of heartbeats in it may be set through the registry at any time, and
an instance that is initialized keeps what was set before.  The timers divide by the one and take a
random number modulo half of the other.

How a text is read as a number is up to another library: its functions are inputs, which return an error
and what they leave in the variable.  An assertion that fails, and a division by zero, is `none`.
-/

namespace NiovaRaft

namespace Timers

open Base

def EINVAL : Int := 22
def ERANGE : Int := 34

/-- `RAFT_ELECTION__MAX_TIME_MS`. -/
def electionMaxTimeMs : UInt64 := 100000

/-- `RAFT_ELECTION__MIN_TIME_MS`. -/
def electionMinTimeMs : UInt64 := 100

/-- `RAFT_HEARTBEAT__MIN_FREQ`. -/
def heartbeatMinFreq : UInt32 := 2

/-- `RAFT_HEARTBEAT__MIN_TIME_MS`. -/
def heartbeatMinTimeMs : UInt32 := 10

/-- `RAFT_ELECTION_UPPER_TIME_MS`. -/
def electionUpperTimeMs : UInt32 := 300

/-- `RAFT_HEARTBEAT_FREQ_PER_ELECTION`. -/
def heartbeatFreqPerElection : UInt32 := 10

/-- What of `struct raft_instance` the timers depend on. -/
structure TimerInstance where
  procState : ProcessState
  electionTimeoutMaxMs : UInt32
  heartbeatFreqPerElectionMin : UInt32
deriving DecidableEq

/-- `niova_string_to_unsigned_int` and `niova_string_to_unsigned_long_long`, on a text and the variable
to be set. -/
structure StringReaders where
  stringToUnsignedInt : List UInt8 → UInt32 → Int × UInt32
  stringToUnsignedLongLong : List UInt8 → UInt64 → Int × UInt64

/-- The type of a value in the registry. -/
inductive LregValType where
  | string | other
deriving DecidableEq

/-- `struct lreg_value`, as it comes with a write. -/
structure LregValue where
  typeIn : LregValType
  inStr : List UInt8

/-! ## Writes -/

/-- `raft_net_calc_max_heartbeat_freq`. -/
def calcMaxHeartbeatFreq (ri : TimerInstance) : UInt32 := ri.electionTimeoutMaxMs / heartbeatMinTimeMs

/-- `raft_net_set_heartbeat_freq`. -/
def setHeartbeatFreq (ri : TimerInstance) (newHbFreq : UInt32) : TimerInstance :=
  if newHbFreq < heartbeatMinFreq then ri
  else
    let maxHbFreq := calcMaxHeartbeatFreq ri
    let newHbFreq := if newHbFreq > maxHbFreq then maxHbFreq else newHbFreq
    if newHbFreq ≠ ri.heartbeatFreqPerElectionMin then
      { ri with heartbeatFreqPerElectionMin := newHbFreq }
    else ri

/-- The text that stands for the value at first. -/
def isDefault (inStr : List UInt8) : Bool := strncmp inStr (ascii "default".toList) 7 == 0

/-- `raft_net_lreg_set_heartbeat_freq`. -/
def lregSetHeartbeatFreq (env : StringReaders) (ri : TimerInstance) (lv : LregValue) :
    TimerInstance × Int :=
  if lv.typeIn ≠ .string then (ri, -EINVAL)
  else
    let (rc, hbFreq) :=
      if isDefault lv.inStr = false then
        env.stringToUnsignedInt lv.inStr heartbeatFreqPerElection
      else (0, heartbeatFreqPerElection)
    if rc ≠ 0 then (ri, rc)
    else if hbFreq = ri.heartbeatFreqPerElectionMin then (ri, 0)
    else if hbFreq < heartbeatMinFreq then (ri, -ERANGE)
    else (setHeartbeatFreq ri hbFreq, 0)

/-- `raft_net_lreg_set_election_timeout`. -/
def lregSetElectionTimeout (env : StringReaders) (ri : TimerInstance) (lv : LregValue) :
    TimerInstance × Int :=
  if lv.typeIn ≠ .string then (ri, -EINVAL)
  else
    let (rc, electionTimeout) :=
      if isDefault lv.inStr = false then
        env.stringToUnsignedLongLong lv.inStr electionUpperTimeMs.toUInt64
      else (0, electionUpperTimeMs.toUInt64)
    if rc ≠ 0 then (ri, rc)
    else if electionTimeout > electionMaxTimeMs ∨ electionTimeout < electionMinTimeMs then
      (ri, -ERANGE)
    else if electionTimeout ≠ ri.electionTimeoutMaxMs.toUInt64 then
      let ri := { ri with electionTimeoutMaxMs := electionTimeout.toUInt32 }
      (setHeartbeatFreq ri ri.heartbeatFreqPerElectionMin, 0)
    else (ri, 0)

/-! ## Initialization -/

/-- `raft_server_instance_restore_init_values`. -/
def instanceRestoreInitValues (ri save : TimerInstance) : TimerInstance :=
  { ri with
    electionTimeoutMaxMs := save.electionTimeoutMaxMs
    heartbeatFreqPerElectionMin := save.heartbeatFreqPerElectionMin }

/-- `raft_server_instance_init`. -/
def instanceInit (ri : TimerInstance) : Option TimerInstance :=
  if ri.procState ≠ .booting then none
  else
    let riSave := ri
    -- the instance is wiped
    let ri : TimerInstance := ⟨.booting, 0, 0⟩
    let ri := instanceRestoreInitValues ri riSave
    let ri :=
      if ri.electionTimeoutMaxMs = 0 then { ri with electionTimeoutMaxMs := electionUpperTimeMs }
      else ri
    let ri :=
      if ri.heartbeatFreqPerElectionMin = 0 then
        { ri with heartbeatFreqPerElectionMin := heartbeatFreqPerElection }
      else ri
    some ri

/-! ## The timers -/

/-- `raft_election_timeout_lower_bound`.  The quotient of the timeout and the divisor, which is 2.0, is
exact, and the cast cuts it off. -/
def electionTimeoutLowerBound (ri : TimerInstance) : UInt32 := ri.electionTimeoutMaxMs / 2

/-- `raft_election_timeout_calc`, with what `random_get` returns. -/
def electionTimeoutCalc (ri : TimerInstance) (random : UInt32) : Option UInt32 :=
  let halvedTimeout := electionTimeoutLowerBound ri
  if halvedTimeout = 0 then none else some (halvedTimeout + random % halvedTimeout)

/-- `raft_heartbeat_timeout_msec`. -/
def heartbeatTimeoutMsec (ri : TimerInstance) : Option UInt32 :=
  if ri.heartbeatFreqPerElectionMin = 0 then none
  else
    let msec := ri.electionTimeoutMaxMs / ri.heartbeatFreqPerElectionMin
    if msec ≥ heartbeatMinTimeMs then some msec else none

/-! ## Runs -/

/-- What happens to the instance.  The rest of the program moves the state of the process. -/
inductive TimerEvent where
  | setElectionTimeout (lv : LregValue)
  | setHeartbeatFreq (lv : LregValue)
  | init
  | procState (procState : ProcessState)

/-- One event. -/
def timerStep (env : StringReaders) (ri : TimerInstance) : TimerEvent → Option TimerInstance
  | .setElectionTimeout lv => some (lregSetElectionTimeout env ri lv).1
  | .setHeartbeatFreq lv => some (lregSetHeartbeatFreq env ri lv).1
  | .init => instanceInit ri
  | .procState procState => some { ri with procState := procState }

/-- A run of the program. -/
def timerRun (env : StringReaders) (ri : TimerInstance) (events : List TimerEvent) :
    Option TimerInstance :=
  events.foldlM (timerStep env) ri

/-- The instance when the program starts. -/
def startInstance (procState : ProcessState) : TimerInstance := ⟨procState, 0, 0⟩

end Timers

end NiovaRaft
