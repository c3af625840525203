import NiovaRaft.Model.InstanceRun

/-!
# How often a recovery is tried

A server whose recovery failed starts again, and is to try again when it is asked to, up to a number of
attempts.  But the error of the recovery stays in the variable that the loop tests, so it ends the loop
after the server ran well.  Only the startup that finds an incomplete recovery clears it; then the
instance is left shut down, and the startup after the next attempt fails an assertion.
-/

namespace NiovaRaft.InstanceRun

open Base

section Iteration

variable {o : Outcomes} {st st' : RunState} {rc : Int}

/-- The iteration tries to recover and fails. -/
structure FailedAttempt (o : Outcomes) (st : RunState) : Prop where
  needs : st.ri.needsBulkRecovery = true
  fails : o.backendRecover ≠ 0

/-- Something other than the recovery fails. -/
def OtherFails (o : Outcomes) : Prop :=
  o.startup ≠ 0 ∨ o.mainLoop ≠ 0 ∨ (o.requested = true ∧ o.chkptPriorToRecovery ≠ 0) ∨ o.shutdown ≠ 0

/-- With an error the loop ends. -/
theorem loopCondition_of_rc {restart : Bool} (h : st.rc ≠ 0) :
    loopCondition restart st = .stop (some st.rc) := if_pos h

theorem loopCondition_restart (h : st.rc = 0) : loopCondition true st = .next st := by
  rw [loopCondition, if_neg (not_not.mpr h), if_pos rfl]

/-- What the loop goes on with, unless it was told to. -/
theorem loopCondition_next (h : loopCondition false st = .next st') :
    st.rc = 0 ∧ st.ri.needsBulkRecovery = true ∧ 1 ≤ st.remainingRecoveryTries ∧
      st' = { st with remainingRecoveryTries := st.remainingRecoveryTries - 1 } := by
  rw [loopCondition] at h
  by_cases hrc : st.rc = 0
  · rw [if_neg (not_not.mpr hrc), if_neg (by decide)] at h
    by_cases hneeds : st.ri.needsBulkRecovery = true
    · rw [if_pos hneeds] at h
      dsimp only at h
      split at h
      · next hpos =>
        cases h
        exact ⟨hrc, hneeds, by omega, rfl⟩
      · cases h
    · rw [if_neg hneeds] at h
      cases h
  · rw [if_pos hrc] at h
    cases h

theorem loopCondition_stop {restart : Bool} {result : Option Int}
    (h : loopCondition restart st = .stop result) : result = some st.rc := by
  rw [loopCondition] at h
  split at h
  · cases h
    rfl
  split at h
  · cases h
  split at h
  · dsimp only at h
    split at h
    · cases h
    · cases h
      rfl
  · cases h
    rfl

/-- An error stays. -/
theorem runMainLoop_rc_of_ne (h : st.rc ≠ 0) : (runMainLoop o st).rc = st.rc := by
  simp only [runMainLoop, if_pos h, if_neg h, ite_self]

/-- Otherwise there is one only if something failed. -/
theorem otherFails_of_runMainLoop (h : st.rc = 0) (hrc : (runMainLoop o st).rc ≠ 0) :
    OtherFails o := by
  by_contra hnone
  simp only [OtherFails, not_or, not_not, not_and] at hnone
  obtain ⟨-, hmain, hchkpt, hshutdown⟩ := hnone
  refine hrc ?_
  cases hrequested : o.requested with
  | false => simp [runMainLoop, h, hmain, hrequested, hshutdown]
  | true => simp [runMainLoop, h, hmain, hrequested, hshutdown, hchkpt hrequested]

/-- The instance that `raft_server_instance_init` leaves, in another state. -/
def RunInstance.wiped (ri : RunInstance) (procState : ProcessState) (needs : Bool) : RunInstance :=
  ⟨procState, needs, ri.successfulRecovery⟩

/-- How the server starts, and what follows. -/
inductive Booted (o : Outcomes) (st : RunState) : LoopStep RunState (Option Int) → Prop
  | asserted (hproc : st.ri.procState ≠ .booting) : Booted o st (.stop none)
  | failed (hproc : st.ri.procState = .booting) (hstartup : o.startup ≠ 0)
      (hother : o.startup ≠ -EUCLEAN) : Booted o st (.stop (some o.startup))
  | incomplete (hproc : st.ri.procState = .booting) (hstartup : o.startup = -EUCLEAN) :
      Booted o st (loopCondition false
        { st with ri := st.ri.wiped .shutdown true, rc := 0 })
  | ran (hproc : st.ri.procState = .booting) (hstartup : o.startup = 0) :
      Booted o st (loopCondition false (runMainLoop o { st with ri := st.ri.wiped .running false }))

theorem booted (o : Outcomes) (st : RunState) : Booted o st (bootAndRun o st) := by
  rw [bootAndRun, instanceInit]
  by_cases hproc : st.ri.procState = .booting
  · rw [if_pos hproc]
    by_cases hstartup : o.startup = 0
    · simp only [instanceStartup, if_pos hstartup]
      exact .ran hproc hstartup
    · simp only [instanceStartup, if_neg hstartup]
      rw [if_pos hstartup]
      by_cases hincomplete : o.startup = -EUCLEAN
      · rw [if_pos hincomplete]
        exact .incomplete hproc hincomplete
      · rw [if_neg hincomplete, loopCondition_of_rc hstartup]
        exact .failed hproc hstartup hincomplete
  · rw [if_neg hproc]
    exact .asserted hproc

/-- A recovery leaves the process state. -/
theorem bulkRecovery_eq (o : Outcomes) (ri : RunInstance) :
    bulkRecovery o ri = (ri, o.backendRecover) := rfl

/-- A recovery that succeeds gives back all attempts. -/
theorem iteration_recovered (hneeds : st.ri.needsBulkRecovery = true) (h : o.backendRecover = 0) :
    iteration o st = .next ⟨⟨st.ri.procState, false, true⟩, recoveryAttempts, 0⟩ := by
  rw [iteration, if_pos hneeds, bulkRecovery_eq]
  dsimp only
  rw [if_pos h, loopCondition_restart h, h]

theorem iteration_failed (h : FailedAttempt o st) :
    iteration o st = bootAndRun o { st with rc := o.backendRecover } := by
  rw [iteration, if_pos h.needs, bulkRecovery_eq]
  dsimp only
  rw [if_neg h.fails]

theorem iteration_plain (h : st.ri.needsBulkRecovery = false) : iteration o st = bootAndRun o st := by
  rw [iteration, if_neg (by simp [h])]

/-- Unless an instance is booting, the next startup is the end. -/
theorem iteration_asserted (hproc : st.ri.procState ≠ .booting)
    (h : st.ri.needsBulkRecovery = false ∨ FailedAttempt o st) : iteration o st = .stop none := by
  rcases h with hplain | hfailed
  · rw [iteration_plain hplain, bootAndRun, instanceInit, if_neg hproc]
  · rw [iteration_failed hfailed, bootAndRun, instanceInit, if_neg hproc]

/-- Each iteration is one of three. -/
theorem iteration_cases (o : Outcomes) (st : RunState) :
    st.ri.needsBulkRecovery = false ∨ (st.ri.needsBulkRecovery = true ∧ o.backendRecover = 0) ∨
      FailedAttempt o st := by
  cases hneeds : st.ri.needsBulkRecovery with
  | false => exact .inl rfl
  | true =>
    by_cases hrecover : o.backendRecover = 0
    · exact .inr (.inl ⟨rfl, hrecover⟩)
    · exact .inr (.inr ⟨hneeds, hrecover⟩)

/-- After a startup that succeeds, the error of the recovery ends the loop. -/
theorem iteration_leaks (h : FailedAttempt o st) (hproc : st.ri.procState = .booting)
    (hstartup : o.startup = 0) : iteration o st = .stop (some o.backendRecover) := by
  rw [iteration_failed h]
  have hbooted := booted o { st with rc := o.backendRecover }
  generalize bootAndRun o { st with rc := o.backendRecover } = result at hbooted ⊢
  cases hbooted with
  | asserted hnot => exact absurd hproc hnot
  | failed _ hnot => exact absurd hstartup hnot
  | incomplete _ hnot =>
    rw [hstartup] at hnot
    exact absurd hnot (by decide)
  | ran =>
    have hrc : (runMainLoop o ⟨st.ri.wiped .running false, st.remainingRecoveryTries,
        o.backendRecover⟩).rc = o.backendRecover := runMainLoop_rc_of_ne h.fails
    have hne := h.fails
    rw [← hrc] at hne
    exact (loopCondition_of_rc hne).trans (congrArg (fun rc => LoopStep.stop (some rc)) hrc)

/-- An iteration that goes on has no error, and has spent an attempt unless it recovered. -/
theorem bootAndRun_next (h : bootAndRun o st = .next st') :
    st'.rc = 0 ∧ 1 ≤ st.remainingRecoveryTries ∧
      st'.remainingRecoveryTries = st.remainingRecoveryTries - 1 := by
  have hbooted := booted o st
  rw [h] at hbooted
  generalize hresult : (LoopStep.next st' : LoopStep RunState (Option Int)) = result at hbooted
  cases hbooted with
  | asserted => cases hresult
  | failed => cases hresult
  | incomplete =>
    obtain ⟨hrc, -, hpos, rfl⟩ := loopCondition_next hresult.symm
    exact ⟨hrc, hpos, rfl⟩
  | ran =>
    obtain ⟨hrc, -, hpos, rfl⟩ := loopCondition_next hresult.symm
    exact ⟨hrc, hpos, rfl⟩

/-- An iteration without a recovery that fails returns an error only if something else failed. -/
theorem otherFails_of_bootAndRun (hrc : st.rc = 0) (h : bootAndRun o st = .stop (some rc))
    (hne : rc ≠ 0) : OtherFails o := by
  have hbooted := booted o st
  rw [h] at hbooted
  generalize hresult : (LoopStep.stop (some rc) : LoopStep RunState (Option Int)) = result at hbooted
  cases hbooted with
  | asserted => cases hresult
  | failed _ hstartup => exact .inl hstartup
  | incomplete _ hstartup =>
    rw [OtherFails, hstartup]
    exact .inl (by decide)
  | ran =>
    have hrun := Option.some.inj (loopCondition_stop hresult.symm)
    exact otherFails_of_runMainLoop hrc (hrun ▸ hne)

end Iteration

/-! ## Runs -/

/-- How many attempts have failed before the `k`-th iteration since the last that succeeded. -/
def failedSince (os : Nat → Outcomes) (st : RunState) : Nat → Nat
  | 0 => 0
  | k + 1 =>
      match loopAt (runs os) st k with
      | none => failedSince os st k
      | some t =>
          if t.ri.needsBulkRecovery then
            if (os k).backendRecover = 0 then 0 else failedSince os st k + 1
          else failedSince os st k

section Runs

variable {os : Nat → Outcomes} {ri : RunInstance}

/-- No error is left over from an earlier iteration. -/
theorem rc_of_loopAt {k : Nat} {t : RunState} (ht : loopAt (runs os) (enter ri) k = some t) :
    t.rc = 0 := by
  refine loopAt_invariant (P := fun t => t.rc = 0) rfl (fun k t t' _ _ hbody => ?_) k ht
  have hstep : iteration (os k) t = .next t' := hbody
  obtain hplain | ⟨hneeds, hrecovered⟩ | hfailed := iteration_cases (os k) t
  · rw [iteration_plain hplain] at hstep
    exact (bootAndRun_next hstep).1
  · rw [iteration_recovered hneeds hrecovered] at hstep
    cases hstep
    rfl
  · rw [iteration_failed hfailed] at hstep
    exact (bootAndRun_next hstep).1

/-- What is expected of a run: a recovery that failed is tried again after the server ran and was asked
to, while there are attempts left; an error is returned only when there are none or something other
than the recovery failed; and the loop ends if no recovery succeeds. -/
structure RetriesWell (os : Nat → Outcomes) (ri : RunInstance) : Prop where
  retried : ∀ k t, loopAt (runs os) (enter ri) k = some t → FailedAttempt (os k) t →
    t.ri.procState = .booting → (os k).startup = 0 → (os k).mainLoop = 0 →
    (os k).requested = true → failedSince os (enter ri) (k + 1) < recoveryAttempts →
    ∃ t', loopAt (runs os) (enter ri) (k + 1) = some t' ∧ t'.ri.needsBulkRecovery = true
  returned : ∀ k t rc, loopAt (runs os) (enter ri) k = some t → runs os k t = .stop (some rc) →
    rc ≠ 0 → recoveryAttempts ≤ failedSince os (enter ri) (k + 1) ∨ OtherFails (os k)
  ended : (∀ k t, loopAt (runs os) (enter ri) k = some t → t.ri.needsBulkRecovery = true →
      (os k).backendRecover ≠ 0) →
    ∃ k result, StopsAt (runs os) (enter ri) k result

/-- If no recovery succeeds, each iteration that goes on has spent an attempt. -/
theorem run_ends (h : ∀ k t, loopAt (runs os) (enter ri) k = some t →
    t.ri.needsBulkRecovery = true → (os k).backendRecover ≠ 0) :
    ∃ k result, StopsAt (runs os) (enter ri) k result := by
  refine exists_stopsAt (fun t => t.remainingRecoveryTries.toNat) fun k t t' ht hbody => ?_
  have hstep : iteration (os k) t = .next t' := hbody
  have hspent : 1 ≤ t.remainingRecoveryTries ∧
      t'.remainingRecoveryTries = t.remainingRecoveryTries - 1 := by
    obtain hplain | ⟨hneeds, hrecovered⟩ | hfailed := iteration_cases (os k) t
    · rw [iteration_plain hplain] at hstep
      exact (bootAndRun_next hstep).2
    · exact absurd hrecovered (h k t ht hneeds)
    · rw [iteration_failed hfailed] at hstep
      exact (bootAndRun_next hstep).2
  omega

/-- Every recovery that fails while there are attempts left is explained: the server does not start,
or does not run well, or is not asked to recover again and fails to shut down. -/
def FailuresExplained (os : Nat → Outcomes) (ri : RunInstance) : Prop :=
  ∀ k t, loopAt (runs os) (enter ri) k = some t → FailedAttempt (os k) t →
    t.ri.procState = .booting → failedSince os (enter ri) (k + 1) < recoveryAttempts →
    (os k).startup ≠ 0 ∨ (os k).mainLoop ≠ 0 ∨ ((os k).requested = false ∧ (os k).shutdown ≠ 0)

theorem RetriesWell.explained (h : RetriesWell os ri) : FailuresExplained os ri := by
  intro k t ht hfailed hproc hleft
  by_contra hnone
  obtain ⟨hstartup, hrest⟩ := not_or.mp hnone
  obtain ⟨hmain, hrest⟩ := not_or.mp hrest
  rw [not_not] at hstartup hmain
  have hstop : runs os k t = .stop (some (os k).backendRecover) :=
    iteration_leaks hfailed hproc hstartup
  cases hrequested : (os k).requested with
  | true =>
    obtain ⟨t', ht', -⟩ := h.retried k t ht hfailed hproc hstartup hmain hrequested hleft
    rw [loopAt_succ_of_stop ht hstop] at ht'
    cases ht'
  | false =>
    have hshutdown : (os k).shutdown = 0 := by
      by_contra hne
      exact hrest ⟨hrequested, hne⟩
    rcases h.returned k t _ ht hstop hfailed.fails with hexhausted | hother
    · exact absurd hleft (Int.not_lt.mpr hexhausted)
    · simp [OtherFails, hstartup, hmain, hrequested, hshutdown] at hother

theorem retriesWell_of (h : FailuresExplained os ri) : RetriesWell os ri := by
  refine ⟨?_, ?_, run_ends⟩
  · intro k t ht hfailed hproc hstartup hmain hrequested hleft
    have hexplained := h k t ht hfailed hproc hleft
    simp [hstartup, hmain, hrequested] at hexplained
  · intro k t rc ht hstop hne
    by_cases hleft : failedSince os (enter ri) (k + 1) < recoveryAttempts
    · right
      have hstep : iteration (os k) t = .stop (some rc) := hstop
      obtain hplain | ⟨hneeds, hrecovered⟩ | hfailed := iteration_cases (os k) t
      · rw [iteration_plain hplain] at hstep
        exact otherFails_of_bootAndRun (rc_of_loopAt ht) hstep hne
      · rw [iteration_recovered hneeds hrecovered] at hstep
        cases hstep
      · by_cases hproc : t.ri.procState = .booting
        · rcases h k t ht hfailed hproc hleft with hstartup | hmain | ⟨-, hshutdown⟩
          · exact .inl hstartup
          · exact .inr (.inl hmain)
          · exact .inr (.inr (.inr hshutdown))
        · rw [iteration_asserted hproc (.inr hfailed)] at hstep
          cases hstep
    · exact .inl (Int.not_lt.mp hleft)

/-- A run is as expected exactly if every recovery that fails is explained by something else. -/
theorem retries_iff (os : Nat → Outcomes) (ri : RunInstance) :
    RetriesWell os ri ↔ FailuresExplained os ri :=
  ⟨RetriesWell.explained, retriesWell_of⟩

end Runs

/-! ### A recovery that fails once -/

/-- The server runs and is asked to recover; the recovery fails with `-EIO`, and the server runs and is
asked again. -/
def failsOnce : Nat → Outcomes := fun k => ⟨if k = 1 then -5 else 0, 0, 0, true, 0, 0⟩

/-- The state of a process that has just started. -/
def firstBoot : RunInstance := ⟨.booting, false, false⟩

/-- It is not tried again. -/
theorem failed_recovery_not_retried :
    ¬RetriesWell failsOnce firstBoot ∧ StopsAt (runs failsOnce) (enter firstBoot) 1 (some (-5)) ∧
      failedSince failsOnce (enter firstBoot) 2 = 1 := by
  have hstate : loopAt (runs failsOnce) (enter firstBoot) 1 =
      some ⟨⟨.booting, true, false⟩, 99, 0⟩ := by decide
  refine ⟨fun h => ?_, ⟨_, hstate, rfl⟩, by decide⟩
  obtain ⟨t', ht', -⟩ := h.retried 1 _ hstate ⟨rfl, by decide⟩ rfl rfl rfl rfl (by decide)
  rw [show loopAt (runs failsOnce) (enter firstBoot) (1 + 1) = none by decide] at ht'
  cases ht'

/-! ## Incomplete recoveries -/

section Incomplete

variable {o : Outcomes} {st st' : RunState}

/-- After a startup that finds an incomplete recovery there is one attempt, and whether or not it
succeeds, the startup after it fails an assertion. -/
theorem incomplete_recovery_asserts (hstartup : o.startup = -EUCLEAN)
    (h : bootAndRun o st = .next st') (o' : Outcomes) :
    iteration o' st' = .stop none ∨
      ∃ st'', iteration o' st' = .next st'' ∧ ∀ o'', iteration o'' st'' = .stop none := by
  have hstate : st'.ri.procState = .shutdown ∧ st'.ri.needsBulkRecovery = true := by
    have hbooted := booted o st
    rw [h] at hbooted
    generalize hresult : (LoopStep.next st' : LoopStep RunState (Option Int)) = result at hbooted
    cases hbooted with
    | asserted => cases hresult
    | failed => cases hresult
    | incomplete =>
      obtain ⟨-, -, -, rfl⟩ := loopCondition_next hresult.symm
      exact ⟨rfl, rfl⟩
    | ran _ hran =>
      rw [hstartup] at hran
      exact absurd hran (by decide)
  have hproc : st'.ri.procState ≠ .booting := by
    rw [hstate.1]
    decide
  obtain hplain | ⟨hneeds, hrecovered⟩ | hfailed := iteration_cases o' st'
  · exact .inl (iteration_asserted hproc (.inl hplain))
  · refine .inr ⟨_, iteration_recovered hneeds hrecovered, fun o'' => ?_⟩
    exact iteration_asserted hproc (.inl rfl)
  · exact .inl (iteration_asserted hproc (.inr hfailed))

end Incomplete

end NiovaRaft.InstanceRun
