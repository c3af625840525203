import NiovaRaft.Base.Calls
import NiovaRaft.Model.Timers

/-!
# The timers have something to divide by

The frequency of the heartbeats is cut down to what the election timeout allows, at each write of either.
While the timeout is still zero that makes the frequency zero, so a zero is left to the initialization,
whose default fits every timeout that can be set.
-/

namespace NiovaRaft.Timers

open Base

variable {env : StringReaders} {ri ri' : TimerInstance}

/-- The frequency was not set, or it fits the timeout. -/
structure Tuned (ri : TimerInstance) : Prop where
  electionTimeout : ri.electionTimeoutMaxMs.toNat = 0 ∨ 100 ≤ ri.electionTimeoutMaxMs.toNat
  heartbeatFreq : ri.heartbeatFreqPerElectionMin.toNat = 0 ∨
    (2 ≤ ri.heartbeatFreqPerElectionMin.toNat ∧
      10 * ri.heartbeatFreqPerElectionMin.toNat ≤ ri.electionTimeoutMaxMs.toNat)

/-- Both values are set. -/
structure Ready (ri : TimerInstance) : Prop extends Tuned ri where
  heartbeatFreq_ne : ri.heartbeatFreqPerElectionMin.toNat ≠ 0

/-- The timers can be computed. -/
structure TimersSafe (ri : TimerInstance) : Prop where
  electionTimeout_ne : ri.electionTimeoutMaxMs ≠ 0
  heartbeatFreq_ne : ri.heartbeatFreqPerElectionMin ≠ 0
  quotient : heartbeatMinTimeMs ≤ ri.electionTimeoutMaxMs / ri.heartbeatFreqPerElectionMin
  lowerBound_pos : 0 < electionTimeoutLowerBound ri
  heartbeatTimeout : heartbeatTimeoutMsec ri ≠ none
  electionTimeout : ∀ random, electionTimeoutCalc ri random ≠ none

/-! ## Setting the frequency -/

@[simp] theorem electionTimeoutMaxMs_setHeartbeatFreq (ri : TimerInstance) (newHbFreq : UInt32) :
    (setHeartbeatFreq ri newHbFreq).electionTimeoutMaxMs = ri.electionTimeoutMaxMs := by
  unfold setHeartbeatFreq
  split
  · rfl
  · dsimp only
    split <;> split <;> rfl

/-- A frequency that is too low is ignored, and one that is too high is cut down. -/
theorem heartbeatFreq_setHeartbeatFreq (ri : TimerInstance) (newHbFreq : UInt32) :
    (setHeartbeatFreq ri newHbFreq).heartbeatFreqPerElectionMin.toNat =
      if newHbFreq.toNat < 2 then ri.heartbeatFreqPerElectionMin.toNat
      else min newHbFreq.toNat (ri.electionTimeoutMaxMs.toNat / 10) := by
  have hmax : (calcMaxHeartbeatFreq ri).toNat = ri.electionTimeoutMaxMs.toNat / 10 := by
    rw [calcMaxHeartbeatFreq, UInt32.toNat_div]
    rfl
  have hmin : newHbFreq < heartbeatMinFreq ↔ newHbFreq.toNat < 2 := UInt32.lt_iff_toNat_lt
  have hset : ∀ f : UInt32, (if f ≠ ri.heartbeatFreqPerElectionMin then
      { ri with heartbeatFreqPerElectionMin := f } else ri).heartbeatFreqPerElectionMin = f := by
    intro f
    split
    · rfl
    · next h => exact (not_not.mp h).symm
  rw [setHeartbeatFreq]
  by_cases hlow : newHbFreq.toNat < 2
  · rw [if_pos (hmin.mpr hlow), if_pos hlow]
  · rw [if_neg (mt hmin.mp hlow), if_neg hlow]
    dsimp only
    rw [hset]
    split
    · next hgt =>
      rw [gt_iff_lt, UInt32.lt_iff_toNat_lt, hmax] at hgt
      rw [hmax, Nat.min_eq_right hgt.le]
    · next hle =>
      rw [gt_iff_lt, UInt32.lt_iff_toNat_lt, hmax] at hle
      rw [Nat.min_eq_left (Nat.not_lt.mp hle)]

/-- With a timeout that may be set, the frequency fits it afterwards. -/
theorem Tuned.setHeartbeatFreq {newHbFreq : UInt32} (htimeout : ri.electionTimeoutMaxMs.toNat = 0 ∨
      100 ≤ ri.electionTimeoutMaxMs.toNat)
    (hlow : newHbFreq.toNat < 2 → ri.heartbeatFreqPerElectionMin.toNat = 0) :
    Tuned (setHeartbeatFreq ri newHbFreq) := by
  constructor
  · rw [electionTimeoutMaxMs_setHeartbeatFreq]
    exact htimeout
  · rw [heartbeatFreq_setHeartbeatFreq, electionTimeoutMaxMs_setHeartbeatFreq]
    split
    · next h => exact .inl (hlow h)
    · omega

/-! ## Writes -/

/-- What a write may leave of the instance. -/
inductive Written (ri : TimerInstance) : TimerInstance → Prop
  | same : Written ri ri
  | heartbeatFreq (hbFreq : UInt32) (hmin : 2 ≤ hbFreq.toNat) :
      Written ri (setHeartbeatFreq ri hbFreq)
  | electionTimeout (electionTimeout : UInt32) (hmin : 100 ≤ electionTimeout.toNat) :
      Written ri (setHeartbeatFreq { ri with electionTimeoutMaxMs := electionTimeout }
        ri.heartbeatFreqPerElectionMin)

theorem written_lregSetHeartbeatFreq (env : StringReaders) (ri : TimerInstance) (lv : LregValue) :
    Written ri (lregSetHeartbeatFreq env ri lv).1 := by
  unfold lregSetHeartbeatFreq
  split
  · exact .same
  · dsimp only
    generalize (if isDefault lv.inStr = false then
      env.stringToUnsignedInt lv.inStr heartbeatFreqPerElection
      else (0, heartbeatFreqPerElection)) = result
    split
    · exact .same
    · split
      · exact .same
      · split
        · exact .same
        · next hlow =>
          rw [UInt32.lt_iff_toNat_lt] at hlow
          exact .heartbeatFreq result.2 (Nat.not_lt.mp hlow)

theorem written_lregSetElectionTimeout (env : StringReaders) (ri : TimerInstance) (lv : LregValue) :
    Written ri (lregSetElectionTimeout env ri lv).1 := by
  unfold lregSetElectionTimeout
  split
  · exact .same
  · dsimp only
    generalize (if isDefault lv.inStr = false then
      env.stringToUnsignedLongLong lv.inStr electionUpperTimeMs.toUInt64
      else (0, electionUpperTimeMs.toUInt64)) = result
    split
    · exact .same
    · split
      · exact .same
      · next hrange =>
        split
        · refine .electionTimeout result.2.toUInt32 ?_
          rw [not_or, gt_iff_lt, UInt64.lt_iff_toNat_lt, UInt64.lt_iff_toNat_lt] at hrange
          have hmax : electionMaxTimeMs.toNat = 100000 := rfl
          have hmin : electionMinTimeMs.toNat = 100 := rfl
          rw [UInt64.toNat_toUInt32]
          omega
        · exact .same

/-- A write keeps the two values fitting. -/
theorem Tuned.written (h : Tuned ri) (hwrite : Written ri ri') : Tuned ri' := by
  have htimeout := h.electionTimeout
  have hfreq := h.heartbeatFreq
  cases hwrite with
  | same => exact h
  | heartbeatFreq hbFreq hmin => exact .setHeartbeatFreq htimeout (by omega)
  | electionTimeout electionTimeout hmin =>
    refine .setHeartbeatFreq (.inr hmin) ?_
    show ri.heartbeatFreqPerElectionMin.toNat < 2 → ri.heartbeatFreqPerElectionMin.toNat = 0
    omega

/-- A write does not take the frequency back. -/
theorem Ready.written (h : Ready ri) (hwrite : Written ri ri') : Ready ri' := by
  have hfreq := h.heartbeatFreq
  have hne := h.heartbeatFreq_ne
  refine ⟨h.toTuned.written hwrite, ?_⟩
  cases hwrite with
  | same => exact hne
  | heartbeatFreq hbFreq hmin =>
    have htimeout := h.toTuned.electionTimeout
    rw [heartbeatFreq_setHeartbeatFreq]
    split <;> omega
  | electionTimeout electionTimeout hmin =>
    rw [heartbeatFreq_setHeartbeatFreq]
    dsimp only
    split <;> omega

/-! ## Initialization -/

/-- A value that is not zero is kept, and a zero gets the default. -/
theorem instanceInit_eq_some (h : instanceInit ri = some ri') :
    ri'.electionTimeoutMaxMs.toNat =
        (if ri.electionTimeoutMaxMs.toNat = 0 then 300 else ri.electionTimeoutMaxMs.toNat) ∧
      ri'.heartbeatFreqPerElectionMin.toNat =
        (if ri.heartbeatFreqPerElectionMin.toNat = 0 then 10
          else ri.heartbeatFreqPerElectionMin.toNat) := by
  have hzero : ∀ x : UInt32, x = 0 ↔ x.toNat = 0 := fun x => UInt32.toNat_inj.symm
  unfold instanceInit at h
  split at h
  · cases h
  · cases h
    simp only [instanceRestoreInitValues, ← hzero]
    by_cases htimeout : ri.electionTimeoutMaxMs = 0 <;>
      by_cases hfreq : ri.heartbeatFreqPerElectionMin = 0 <;>
      simp [htimeout, hfreq, electionUpperTimeMs, heartbeatFreqPerElection]

theorem Tuned.instanceInit (h : Tuned ri) (hinit : instanceInit ri = some ri') : Ready ri' := by
  obtain ⟨htimeout', hfreq'⟩ := instanceInit_eq_some hinit
  have htimeout := h.electionTimeout
  have hfreq := h.heartbeatFreq
  refine ⟨⟨?_, ?_⟩, ?_⟩
  · rw [htimeout']
    split <;> omega
  · rw [htimeout', hfreq']
    split <;> split <;> omega
  · rw [hfreq']
    split <;> omega

/-! ## Runs -/

/-- What an event does to the two values. -/
theorem timerStep_eq_some {event : TimerEvent} (h : timerStep env ri event = some ri') :
    Written ri ri' ∨ instanceInit ri = some ri' ∨
      ∃ procState, ri' = { ri with procState := procState } := by
  cases event with
  | setElectionTimeout lv =>
    cases h
    exact .inl (written_lregSetElectionTimeout env ri lv)
  | setHeartbeatFreq lv =>
    cases h
    exact .inl (written_lregSetHeartbeatFreq env ri lv)
  | init => exact .inr (.inl h)
  | procState procState =>
    cases h
    exact .inr (.inr ⟨procState, rfl⟩)

theorem Tuned.timerStep {event : TimerEvent} (h : Tuned ri)
    (hstep : timerStep env ri event = some ri') : Tuned ri' := by
  rcases timerStep_eq_some hstep with hwrite | hinit | ⟨procState, rfl⟩
  · exact h.written hwrite
  · exact (h.instanceInit hinit).toTuned
  · exact ⟨h.electionTimeout, h.heartbeatFreq⟩

theorem Ready.timerStep {event : TimerEvent} (h : Ready ri)
    (hstep : timerStep env ri event = some ri') : Ready ri' := by
  rcases timerStep_eq_some hstep with hwrite | hinit | ⟨procState, rfl⟩
  · exact h.written hwrite
  · exact h.toTuned.instanceInit hinit
  · exact ⟨⟨h.electionTimeout, h.heartbeatFreq⟩, h.heartbeatFreq_ne⟩

/-- With both values set and fitting, the timers can be computed. -/
theorem Ready.timersSafe (h : Ready ri) : TimersSafe ri := by
  have htimeout : 100 ≤ ri.electionTimeoutMaxMs.toNat := by
    have := h.electionTimeout
    have := h.heartbeatFreq
    have := h.heartbeatFreq_ne
    omega
  have hfit : 10 * ri.heartbeatFreqPerElectionMin.toNat ≤ ri.electionTimeoutMaxMs.toNat :=
    (h.heartbeatFreq.resolve_left h.heartbeatFreq_ne).2
  have hfreq_ne : ri.heartbeatFreqPerElectionMin ≠ 0 := by
    intro hzero
    exact h.heartbeatFreq_ne (congrArg UInt32.toNat hzero)
  have hquotient : heartbeatMinTimeMs ≤
      ri.electionTimeoutMaxMs / ri.heartbeatFreqPerElectionMin := by
    rw [UInt32.le_iff_toNat_le, UInt32.toNat_div,
      Nat.le_div_iff_mul_le (Nat.pos_of_ne_zero h.heartbeatFreq_ne)]
    exact hfit
  have hhalved : 0 < (electionTimeoutLowerBound ri).toNat := by
    have hhalf : (electionTimeoutLowerBound ri).toNat = ri.electionTimeoutMaxMs.toNat / 2 :=
      UInt32.toNat_div _ _
    rw [hhalf]
    omega
  have hhalved_ne : electionTimeoutLowerBound ri ≠ 0 := by
    intro hzero
    exact hhalved.ne' (congrArg UInt32.toNat hzero)
  constructor
  · intro hzero
    rw [hzero] at htimeout
    exact absurd htimeout (by decide)
  · exact hfreq_ne
  · exact hquotient
  · exact UInt32.lt_iff_toNat_lt.mpr hhalved
  · rw [heartbeatTimeoutMsec, if_neg hfreq_ne]
    dsimp only
    rw [if_pos hquotient]
    exact Option.some_ne_none _
  · intro random
    rw [electionTimeoutCalc, if_neg hhalved_ne]
    exact Option.some_ne_none _

theorem tuned_startInstance (procState : ProcessState) : Tuned (startInstance procState) :=
  ⟨.inl rfl, .inl rfl⟩

/-- Once the instance was initialized the timers can be computed, whatever is written when. -/
theorem timersSafe_of_run {procState : ProcessState} {events : List TimerEvent}
    (hrun : timerRun env (startInstance procState) events = some ri)
    (hinit : TimerEvent.init ∈ events) : TimersSafe ri := by
  have hready : Ready ri := by
    refine foldlM_since (tuned_startInstance procState) ?_ ?_ ?_ hinit hrun
    · exact fun _ _ _ h hstep => Tuned.timerStep h hstep
    · exact fun _ _ h hstep => Tuned.instanceInit h hstep
    · exact fun _ _ _ h hstep => Ready.timerStep h hstep
  exact hready.timersSafe

/-- A reader of texts that are decimal numbers. -/
def decimalReaders : StringReaders where
  stringToUnsignedInt inStr _ := (0, UInt32.ofNat (readDecimal 0 inStr))
  stringToUnsignedLongLong inStr _ := (0, UInt64.ofNat (readDecimal 0 inStr))

/-- A timeout is set at first, and a frequency that is too high for it afterwards. -/
theorem timersSafe_of_run_writes : TimersSafe ⟨.booting, 100, 10⟩ := by
  have hrun : timerRun decimalReaders (startInstance .booting)
      [.setElectionTimeout ⟨.string, decimal 3 100⟩, .init,
        .setHeartbeatFreq ⟨.string, decimal 2 50⟩] = some ⟨.booting, 100, 10⟩ := by
    decide
  exact timersSafe_of_run hrun (List.mem_cons_of_mem _ List.mem_cons_self)

end NiovaRaft.Timers
