import NiovaRaft.Model.SyncThread

/-!
# One sync at a time

`raft_server_backend_sync` is called by both threads.  Between its sections the other thread may run,
but not with a sync of its own: the mutex is taken before the headers are read, and is held until the
last-applied record is updated.  While the sync thread has a copy of a header, it has the mutex.
-/

namespace NiovaRaft

open Base Base.Handler RaftServer

namespace SyncThread

variable {n : Nat} {i : Thread} {s : SyncShared n}

/-- The sections that are run with the mutex. -/
def WithMutex : SyncSection → Prop
  | .copyApplied | .copyUnsync | .checkSync | .backendSync | .publishSync | .unlockSync => True
  | _ => False

/-- The sync thread has the mutex while it has a copy. -/
def CopyHeld (s : SyncShared n) : Prop := s.copied ≠ none → s.syncMutex = some .sync

/-- What a thread has: the mutex, and a copy. -/
structure SyncPart where
  holds : Prop
  copy : Prop

def part (i : Thread) (s : SyncShared n) : SyncPart :=
  ⟨s.syncMutex = some i, i = .sync ∧ s.copied ≠ none⟩

/-- A thread outside of `raft_server_backend_sync`. -/
def SyncPart.none : SyncPart := ⟨False, False⟩

/-- A thread in it, without a copy. -/
def SyncPart.locked : SyncPart := ⟨True, False⟩

/-- The thread in it, with a copy if it is the sync thread. -/
def SyncPart.copied (i : Thread) : SyncPart := ⟨True, i = .sync⟩

/-- What the threads keep to.  They may die anywhere. -/
def discipline (n : Nat) : Discipline Thread SyncSection (SyncShared n) :=
  .ofParts CopyHeld part (· = .none) (fun label v => WithMutex label → v.holds) (fun _ _ _ => True)
    fun _ => True

/-- Run by thread `i`, the program takes its part from one that `P` holds of to one that `Q` holds
of. -/
abbrev Does {α : Type} (i : Thread) (P : SyncPart → Prop) (p : SyncProg n α)
    (Q : α → SyncPart → Prop) : Prop :=
  (discipline n).Takes part i P p Q

/-! ## Sections -/

section Sections

variable {P : SyncPart → Prop} {label : SyncSection}

/-- The functions of the server do not touch the mutex. -/
theorem wp_onProc {α : Type} (m : Server n α) (s : SyncShared n) :
    (onProc m).wp (fun _ s' => s'.syncMutex = s.syncMutex ∧ s'.copied = s.copied)
      (fun s' => s'.syncMutex = s.syncMutex ∧ s'.copied = s.copied) s := by
  simp only [wp, onProc]
  cases m s.proc with
  | ok a p => exact ⟨rfl, rfl⟩
  | abort p => exact ⟨rfl, rfl⟩

theorem CopyHeld.congr {s' : SyncShared n} (h : CopyHeld s) (hmutex : s'.syncMutex = s.syncMutex)
    (hcopied : s'.copied = s.copied) : CopyHeld s' := by
  rw [CopyHeld, hmutex, hcopied]
  exact h

/-- A step that leaves the mutex and the copy. -/
theorem moved_congr {s' : SyncShared n} (h : CopyHeld s) (hP : P (part i s))
    (hmutex : s'.syncMutex = s.syncMutex) (hcopied : s'.copied = s.copied) :
    Discipline.Moved CopyHeld part i s P s' := by
  have hparts : ∀ j, part j s' = part j s := fun j => by rw [part, part, hmutex, hcopied]
  refine ⟨h.congr hmutex hcopied, fun j _ => hparts j, ?_⟩
  rw [hparts i]
  exact hP

theorem does_onProc {α : Type} (hat : ∀ v, P v → WithMutex label → v.holds) (m : Server n α) :
    Does i P (.critical label (onProc m)) fun _ => P := by
  refine .critical hat fun s hs hP _ => ?_
  exact wp_mono (wp_onProc m s) (fun _ s' h => moved_congr hs hP h.1 h.2)
    fun s' h => ⟨hs.congr h.1 h.2, trivial⟩

/-- A section that only looks. -/
theorem does_gets {α : Type} (hat : ∀ v, P v → WithMutex label → v.holds) (f : SyncShared n → α) :
    Does i P (.critical label (gets f)) fun _ => P :=
  .critical hat fun _ hs hP _ => moved_congr hs hP rfl rfl

/-- An assertion about values that were read before. -/
theorem does_assert (hat : ∀ v, P v → WithMutex label → v.holds) (c : Prop) [Decidable c] :
    Does (n := n) i P (.critical label (assert c)) fun _ => P := by
  refine .critical hat fun s hs hP _ => ?_
  rw [wp_assert]
  exact ⟨fun _ => moved_congr hs hP rfl rfl, fun _ => ⟨hs, trivial⟩⟩

end Sections

/-! ## Syncing -/

theorem does_lockSync : Does (n := n) i (· = .none) (.await .lockSync
    (fun s => decide (s.syncMutex = none)) (modify fun s => { s with syncMutex := some i }))
    fun _ => (· = .locked) := by
  refine .await (fun _ _ => False.elim) fun s hs hpart hfree _ => ?_
  have hnone : s.syncMutex = none := of_decide_eq_true hfree
  have hcopy : (i = .sync ∧ s.copied ≠ none) = False := congrArg SyncPart.copy hpart
  refine ⟨fun hcopied => ?_, fun j hj => ?_, ?_⟩
  · rw [hs hcopied] at hnone
    cases hnone
  · simp [part, hnone, Ne.symm hj]
  · simp only [part, hcopy, SyncPart.locked]

theorem wp_record {reh : Option EntryHeader} {Q : Unit → SyncShared n → Prop}
    {D : SyncShared n → Prop} :
    (record i reh).wp Q D s ↔
      (i = .sync → Q () { s with copied := reh }) ∧ (i ≠ .sync → Q () s) := by
  simp only [record, wp_whenever, wp_modify]

/-- A header is copied, for the record if this is the sync thread. -/
theorem does_copyUnsync : Does (n := n) i (· = .locked) (.critical .copyUnsync do
    let unsyncReh ← gets (·.proc.ri.newestUnsync)
    record i (some unsyncReh)
    pure unsyncReh) fun _ => (· = .copied i) := by
  refine .critical (by rintro _ rfl -; trivial) fun s hs hpart _ => ?_
  have hholds : s.syncMutex = some i := of_eq_true (congrArg SyncPart.holds hpart)
  simp only [wp_bind, wp_gets, wp_pure, wp_record]
  constructor
  · rintro rfl
    refine ⟨fun _ => hholds, fun j hj => ?_, ?_⟩
    · simp [part, hj]
    · simp [part, hholds, SyncPart.copied]
  · intro hi
    refine (moved_congr (P := (· = .locked)) hs hpart rfl rfl).mono ?_
    rintro v rfl
    simp [SyncPart.locked, SyncPart.copied, hi]

theorem does_publishSync (reh : EntryHeader) : Does (n := n) i (· = .copied i)
    (.critical .publishSync do
      onProc (updateNewestEntryHdr reh .sync false)
      record i none) fun _ => (· = .locked) := by
  refine .critical (by rintro _ rfl -; trivial) fun s hs hpart _ => ?_
  have hholds : s.syncMutex = some i := of_eq_true (congrArg SyncPart.holds hpart)
  rw [wp_bind]
  refine wp_mono (wp_onProc _ s) (fun _ s' h => ?_) fun s' h => ⟨hs.congr h.1 h.2, trivial⟩
  rw [wp_record]
  constructor
  · rintro rfl
    refine ⟨fun hcopied => absurd rfl hcopied, fun j hj => ?_, ?_⟩
    · simp [part, h.1, hj]
    · simp [part, h.1, hholds, SyncPart.locked]
  · intro hi
    refine (moved_congr (P := (· = .copied i)) hs hpart h.1 h.2).mono ?_
    rintro v rfl
    simp [SyncPart.locked, SyncPart.copied, hi]

theorem does_unlockSync (m : Server n Unit) : Does i (· = .locked) (.critical .unlockSync do
    onProc m
    modify fun s => { s with syncMutex := none }) fun _ => (· = .none) := by
  refine .critical (by rintro _ rfl -; trivial) fun s hs hpart _ => ?_
  have hholds : s.syncMutex = some i := of_eq_true (congrArg SyncPart.holds hpart)
  have hcopy : (i = .sync ∧ s.copied ≠ none) = False := congrArg SyncPart.copy hpart
  rw [wp_bind]
  refine wp_mono (wp_onProc m s) (fun _ s' h => ?_) fun s' h => ⟨hs.congr h.1 h.2, trivial⟩
  rw [wp_modify]
  refine ⟨fun hcopied => ?_, fun j hj => ?_, ?_⟩
  · -- the copy would be that of the thread that has the mutex
    rw [h.2] at hcopied
    have hi : i = .sync := Option.some.inj (hholds.symm.trans (hs hcopied))
    exact (of_eq_false hcopy ⟨hi, hcopied⟩).elim
  · simp [part, hholds, h.2, Ne.symm hj]
  · simp only [part, h.2, hcopy, SyncPart.none, reduceCtorEq]

theorem does_backendSync : Does (n := n) i (· = .none) (backendSync i) fun _ => (· = .none) := by
  refine .bind does_lockSync fun _ => ?_
  refine .bind (does_gets (by rintro _ rfl -; trivial) _) fun applied => ?_
  refine .bind does_copyUnsync fun reh => ?_
  refine .bind (does_onProc (by rintro _ rfl -; trivial) _) fun _ => ?_
  refine .bind (does_onProc (by rintro _ rfl -; trivial) _) fun _ => ?_
  exact .bind (does_publishSync reh) fun _ => does_unlockSync _

/-! ## All programs -/

/-- Outside of `raft_server_backend_sync` no section needs the mutex. -/
theorem does_outside {α : Type} {label : SyncSection} (h : ¬WithMutex label) (m : Server n α) :
    Does i (· = .none) (.critical label (onProc m)) fun _ => (· = .none) :=
  does_onProc (fun _ _ hlabel => absurd hlabel h) m

theorem does_backendSyncPending :
    Does (n := n) i (· = .none) (backendSyncPending i) fun _ => (· = .none) := by
  refine .bind (does_outside id _) fun unsynced => ?_
  exact .whenever (fun _ => does_backendSync) fun _ _ hv => hv

theorem does_appendEntryLogPruneIfNeeded (raerq : AppendEntriesRequestMsg) :
    Does (n := n) .main (· = .none) (appendEntryLogPruneIfNeeded raerq) fun _ => (· = .none) := by
  refine .bind (does_outside id _) fun _ => ?_
  refine .bind does_backendSync fun _ => ?_
  refine .bind (does_outside id _) fun _ => ?_
  refine .bind (Q := fun _ => (· = .none)) (.whenever (fun _ => ?_) fun _ _ hv => hv) fun _ => ?_
  · exact .bind (does_outside id _) fun _ => does_outside id _
  · exact .bind (does_gets (fun _ _ => False.elim) _) fun _ => does_outside id _

theorem does_appendEntryLogPrepareAndCheck (raerq : AppendEntriesRequestMsg) :
    Does (n := n) .main (· = .none) (appendEntryLogPrepareAndCheck raerq) fun _ => (· = .none) := by
  refine .bind (does_outside id _) fun ahead => ?_
  refine .whenever (fun _ => ?_) fun _ _ hv => hv
  refine .bind (does_outside id _) fun stored => ?_
  refine .whenever (fun _ => ?_) fun _ _ hv => hv
  refine .bind (does_appendEntryLogPruneIfNeeded raerq) fun _ => ?_
  exact .bind (does_outside id _) fun unsynced => does_assert (fun _ _ => False.elim) _

theorem does_program [Externals] (i : Thread) (op : Op n) :
    Does i (· = .none) (program i op) fun _ => (· = .none) := by
  cases i with
  | sync =>
    refine .bind (does_outside id _) fun unsynced => ?_
    exact .whenever (fun _ => does_backendSyncPending) fun _ _ hv => hv
  | main =>
    cases op with
    | syncThread => exact .ret fun _ hv => hv
    | write term data sizes marker =>
      refine .bind (does_outside id _) fun re => ?_
      exact .bind (does_outside id _) fun _ => does_outside id _
    | append raerq => exact does_appendEntryLogPrepareAndCheck raerq
    | header candidate term =>
      refine .bind (does_outside id _) fun _ => ?_
      exact .bind (does_outside id _) fun _ => does_backendSync
    | syncPending => exact does_backendSyncPending
    | apply cb => exact does_outside id _
    | elsewhere change => exact does_outside id _

theorem discipline_sound [Externals] (n : Nat) : (discipline n).Sound program :=
  Discipline.sound_ofParts does_program

/-- In every interleaving, at most one thread is between the lock and the unlock of
`raft_server_backend_sync`, and while the sync thread has a copy of a header, the other is not. -/
theorem backendSync_exclusive [Externals] {ri : RaftInstance n}
    {c : Threads Thread SyncSection (SyncShared n)}
    (h : Threads.Reach program (fun _ _ => True) (started ri) c) (halive : c.died = none)
    {label label' : SyncSection} (hmain : (c.progs .main).next = some label)
    (hsync : (c.progs .sync).next = some label') (hwith : WithMutex label) :
    ¬WithMutex label' ∧ c.shared.copied = none := by
  have hkeeps : (discipline n).Keeps c := by
    refine (discipline_sound n).keeps (fun _ _ _ _ _ _ _ => trivial) ?_ (fun i => ?_) h
    · exact fun hcopied => absurd rfl hcopied
    · show part i (started ri) = .none
      simp [part, started, SyncPart.none]
  have hheld : c.shared.syncMutex = some .main := hkeeps.asserts halive hmain hwith
  refine ⟨fun hwith' => ?_, ?_⟩
  · have hother : c.shared.syncMutex = some .sync := hkeeps.asserts halive hsync hwith'
    cases hheld.symm.trans hother
  · by_contra hcopied
    cases hheld.symm.trans (hkeeps.inv hcopied)

end SyncThread

end NiovaRaft
