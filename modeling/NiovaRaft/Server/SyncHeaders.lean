import NiovaRaft.Model.SyncThread
import NiovaRaft.Spec.AppendEntries
import NiovaRaft.Spec.Apply
import NiovaRaft.Spec.Startup
import NiovaRaft.Spec.Writes

/-!
# The two newest headers

`SYNC` follows `UNSYNC`.  The thread that syncs copies `UNSYNC`, flushes the backend, and moves
`SYNC` on to the copy.  Only the main thread changes `UNSYNC` and the entries.  When it prunes the
log it moves both headers back, after a sync of its own.  That sync is over by then, and the sync
thread may have begun another.  Where it has copied `UNSYNC` and not yet published the copy, the
headers are moved back under it, and `SYNC` then names an entry that is about to be pruned.
-/

namespace NiovaRaft

open Base Base.Handler RaftServer

variable {n : Nat}

/-- `SYNC` is not ahead of `UNSYNC`, and names an entry of the log. -/
structure HeadersAgree (ri : RaftInstance n) : Prop where
  index : ri.newestSync.index ≤ ri.newestUnsync.index
  term : ri.newestSync.term ≤ ri.newestUnsync.term
  held : ri.newestSync.HeldIn ri.store.db

namespace SyncThread

variable {i : Thread} {s s' : SyncShared n}

/-- The main thread moves the headers back only where the sync thread has no copy of one. -/
def ForcesAlone (c : Threads Thread SyncSection (SyncShared n)) : ThreadEvent Thread (Op n) → Prop
  | .run .main => (c.progs .main).next = some .forceNewest → c.shared.copied = none
  | _ => True

instance decidableForcesAlone (c : Threads Thread SyncSection (SyncShared n)) :
    ∀ e : ThreadEvent Thread (Op n), Decidable (ForcesAlone c e)
  | .run .main => inferInstanceAs (Decidable (_ → _))
  | .run .sync => .isTrue trivial
  | .begin _ _ => .isTrue trivial

/-! ## The invariant -/

/-- A copy of the sync thread is between the two headers, and nobody else syncs. -/
structure CopyBetween (s : SyncShared n) (reh : EntryHeader) : Prop where
  mutex : s.syncMutex = some .sync
  sync : s.proc.ri.newestSync.index ≤ reh.index
  index : reh.index ≤ s.proc.ri.newestUnsync.index
  term : reh.term ≤ s.proc.ri.newestUnsync.term
  held : reh.HeldIn s.proc.ri.store.db

/-- What holds between any two sections. -/
structure InOrder (s : SyncShared n) : Prop extends HeadersAgree s.proc.ri where
  least : -1 ≤ s.proc.ri.newestSync.index
  async : s.proc.ri.opts.synchronousWrites = false
  unsync : s.proc.ri.newestUnsync.HeldIn s.proc.ri.store.db
  copied : ∀ reh, s.copied = some reh → CopyBetween s reh

/-- What the sync thread does to what the main thread knows. -/
structure SyncStep (s s' : SyncShared n) : Prop where
  inOrder : InOrder s'
  unsync : s'.proc.ri.newestUnsync = s.proc.ri.newestUnsync
  entries : s'.proc.ri.store.db.entries = s.proc.ri.store.db.entries
  sync : s.proc.ri.newestSync.index ≤ s'.proc.ri.newestSync.index
  mutex : s.syncMutex = some .main → s'.syncMutex = some .main

/-- What the main thread does to what the sync thread knows. -/
structure MainStep (s s' : SyncShared n) : Prop where
  inOrder : InOrder s'
  copied : s'.copied = s.copied
  mutex : s.syncMutex = some .sync → s'.syncMutex = some .sync

/-- The steps of a thread. -/
def StepOf : Thread → SyncShared n → SyncShared n → Prop
  | .main => MainStep
  | .sync => SyncStep

/-- The steps of the other thread. -/
def StepOfOther : Thread → SyncShared n → SyncShared n → Prop
  | .main => SyncStep
  | .sync => MainStep

theorem StepOfOther.inOrder (h : StepOfOther i s s') : InOrder s' := by
  cases i with
  | main => exact SyncStep.inOrder h
  | sync => exact MainStep.inOrder h

/-- What the threads keep to.  The process dies in neither of the two checks of the headers. -/
def order (n : Nat) : Discipline Thread SyncSection (SyncShared n) where
  inv := fun _ => True
  rely := StepOfOther
  guar := StepOf
  idle := fun _ => InOrder
  asserts := fun _ _ => InOrder
  mayRun := fun i label s => i = .main → label = .forceNewest → s.copied = none
  mayDie := fun label => label ≠ .hasUnsyncedEntries ∧ label ≠ .checkSync

/-- The other thread cannot invalidate `φ`. -/
def Kept (i : Thread) (φ : SyncShared n → Prop) : Prop := ∀ s s', StepOfOther i s s' → φ s → φ s'

/-- Run by thread `i`, the program takes the shared state from `φ` to `ψ`. -/
abbrev Brings {α : Type} (i : Thread) (φ : SyncShared n → Prop) (p : SyncProg n α)
    (ψ : α → SyncShared n → Prop) : Prop :=
  (order n).Meets i (fun a s => InOrder s ∧ ψ a s) p fun s => InOrder s ∧ φ s

/-- Nothing of the headers, the log and the mutex differs. -/
structure Same (s s' : SyncShared n) : Prop where
  opts : s'.proc.ri.opts = s.proc.ri.opts
  newestSync : s'.proc.ri.newestSync = s.proc.ri.newestSync
  newestUnsync : s'.proc.ri.newestUnsync = s.proc.ri.newestUnsync
  entries : s'.proc.ri.store.db.entries = s.proc.ri.store.db.entries
  mutex : s'.syncMutex = s.syncMutex
  copied : s'.copied = s.copied

theorem heldIn_congr {d d' : Db n} (h : d'.entries = d.entries) {reh : EntryHeader} :
    reh.HeldIn d' ↔ reh.HeldIn d := by
  rw [EntryHeader.HeldIn, EntryHeader.HeldIn, h]

theorem InOrder.of_same (hs : InOrder s) (h : Same s s') : InOrder s' := by
  obtain ⟨hopts, hsync, hunsync, hentries, hmutex, hcopied⟩ := h
  refine ⟨⟨?_, ?_, ?_⟩, ?_, ?_, ?_, fun reh hreh => ?_⟩
  · rw [hsync, hunsync]
    exact hs.index
  · rw [hsync, hunsync]
    exact hs.term
  · rw [hsync, heldIn_congr hentries]
    exact hs.held
  · rw [hsync]
    exact hs.least
  · rw [hopts]
    exact hs.async
  · rw [hunsync, heldIn_congr hentries]
    exact hs.unsync
  · rw [hcopied] at hreh
    obtain ⟨h1, h2, h3, h4, h5⟩ := hs.copied reh hreh
    refine ⟨?_, ?_, ?_, ?_, ?_⟩
    · rw [hmutex]
      exact h1
    · rw [hsync]
      exact h2
    · rw [hunsync]
      exact h3
    · rw [hunsync]
      exact h4
    · rw [heldIn_congr hentries]
      exact h5

theorem Same.syncStep (h : Same s s') (hs : InOrder s) : SyncStep s s' :=
  ⟨hs.of_same h, h.newestUnsync, h.entries, by rw [h.newestSync], fun hm => by rw [h.mutex, hm]⟩

theorem Same.mainStep (h : Same s s') (hs : InOrder s) : MainStep s s' :=
  ⟨hs.of_same h, h.copied, fun hm => by rw [h.mutex, hm]⟩

theorem Same.stepOf (h : Same s s') (hs : InOrder s) : StepOf i s s' := by
  cases i with
  | main => exact h.mainStep hs
  | sync => exact h.syncStep hs

/-- A section that only reads. -/
theorem InOrder.stays (hs : InOrder s) : StepOf i s s :=
  Same.stepOf ⟨rfl, rfl, rfl, rfl, rfl, rfl⟩ hs

theorem Kept.same {φ : SyncShared n → Prop} (hφ : Kept i φ) (h : Same s s') (hs : InOrder s)
    (hP : φ s) : φ s' := by
  cases i with
  | main => exact hφ s s' (h.syncStep hs) hP
  | sync => exact hφ s s' (h.mainStep hs) hP

theorem Kept.true : Kept (n := n) i fun _ => True := fun _ _ _ _ => trivial

theorem Kept.stable {φ : SyncShared n → Prop} (hφ : Kept i φ) :
    (order n).Stable i fun s => InOrder s ∧ φ s := by
  rintro s s' - - hstep ⟨-, hP⟩
  refine ⟨?_, hφ s s' hstep hP⟩
  cases i with
  | main => exact SyncStep.inOrder hstep
  | sync => exact MainStep.inOrder hstep

/-! ## Sections -/

section Sections

variable {label : SyncSection} {α : Type} {φ : SyncShared n → Prop} {ψ : α → SyncShared n → Prop}

/-- One section that waits for nothing. -/
theorem Brings.critical {m : Handler (SyncShared n) α} (hφ : Kept i φ) (hψ : ∀ a, Kept i (ψ a))
    (h : ∀ s, InOrder s → φ s → (i = .main → label = .forceNewest → s.copied = none) →
      m.wp (fun a s' => StepOf i s s' ∧ ψ a s') (fun _ => (order n).mayDie label) s) :
    Brings i φ (.critical label m) ψ := by
  refine Discipline.Meets.await hφ.stable (fun _ _ hs => hs.1) (fun a => (hψ a).stable) ?_
  intro s _ hs _ hrun
  refine wp_mono (h s hs.1 hs.2 hrun) (fun a s' hpost => ?_) fun _ hdie => ⟨trivial, hdie⟩
  have hinOrder : InOrder s' := by
    cases i with
    | main => exact MainStep.inOrder hpost.1
    | sync => exact SyncStep.inOrder hpost.1
  exact ⟨trivial, hpost.1, hinOrder, hpost.2⟩

theorem Brings.bind {β : Type} {p : SyncProg n α} {f : α → SyncProg n β}
    {χ : β → SyncShared n → Prop} (h : Brings i φ p ψ) (hf : ∀ a, Brings i (ψ a) (f a) χ) :
    Brings i φ (p >>= f) χ :=
  Discipline.Meets.bind h hf

theorem Brings.whenever {c : Prop} [Decidable c] {p : SyncProg n Unit} {ψ : SyncShared n → Prop}
    (hφ : Kept i φ) (h : c → Brings i φ p fun _ => ψ) (hno : ¬c → ∀ s, InOrder s → φ s → ψ s) :
    Brings i φ (.whenever c p) fun _ => ψ :=
  Discipline.Meets.whenever hφ.stable h fun hc s _ hs => ⟨hs.1, hno hc s hs.1 hs.2⟩

theorem Brings.post {p : SyncProg n α} {χ : α → SyncShared n → Prop} (h : Brings i φ p ψ)
    (hχ : ∀ a s, InOrder s → ψ a s → χ a s) : Brings i φ p χ :=
  Discipline.Meets.post h fun a s _ hs => ⟨hs.1, hχ a s hs.1 hs.2⟩

theorem wp_onProc_iff {m : Server n α} {Q : α → SyncShared n → Prop} {D : SyncShared n → Prop} :
    (onProc m).wp Q D s ↔
      m.wp (fun a p => Q a { s with proc := p }) (fun p => D { s with proc := p }) s.proc := by
  simp only [wp, onProc]
  cases m s.proc with
  | ok a p => exact Iff.rfl
  | abort p => exact Iff.rfl

/-- The headers and the entries of two instances are the same. -/
structure LogKept (ri ri' : RaftInstance n) : Prop where
  opts : ri'.opts = ri.opts
  newestSync : ri'.newestSync = ri.newestSync
  newestUnsync : ri'.newestUnsync = ri.newestUnsync
  entries : ri'.store.db.entries = ri.store.db.entries

theorem LogKept.refl (ri : RaftInstance n) : LogKept ri ri := ⟨rfl, rfl, rfl, rfl⟩

theorem LogKept.same {p : Proc n} (h : LogKept s.proc.ri p.ri) : Same s { s with proc := p } :=
  ⟨h.opts, h.newestSync, h.newestUnsync, h.entries, rfl, rfl⟩

/-- A section of the server that leaves the headers and the log. -/
theorem brings_frame {m : Server n α} (hφ : Kept i φ) (hdie : (order n).mayDie label)
    (hm : ∀ p : Proc n, m.wp (fun _ p' => LogKept p.ri p'.ri) (fun _ => True) p) :
    Brings i φ (.critical label (onProc m)) fun _ => φ := by
  refine .critical hφ (fun _ => hφ) fun s hs hP _ => ?_
  rw [wp_onProc_iff]
  refine wp_mono (hm s.proc) (fun a p hp => ?_) fun _ _ => hdie
  exact ⟨hp.same.stepOf hs, hφ.same hp.same hs hP⟩

end Sections

/-! ## Syncing -/

/-- The thread has the mutex, and no copy. -/
def Locked (i : Thread) (s : SyncShared n) : Prop :=
  s.syncMutex = some i ∧ (i = .sync → s.copied = none)

/-- The thread has the mutex, and copied `UNSYNC`, which only the main thread moves. -/
def HasCopy (i : Thread) (reh : EntryHeader) (s : SyncShared n) : Prop :=
  s.syncMutex = some i ∧ (i = .main → s.proc.ri.newestUnsync = reh) ∧
    (i = .sync → s.copied = some reh)

/-- `SYNC` is where `UNSYNC` is, as far as the main thread can tell. -/
def CaughtUp (i : Thread) (s : SyncShared n) : Prop :=
  i = .main → s.proc.ri.newestUnsync.index ≤ s.proc.ri.newestSync.index

theorem kept_locked : Kept (n := n) i (Locked i) := by
  rintro s s' hstep ⟨hmutex, hcopied⟩
  cases i with
  | main => exact ⟨SyncStep.mutex hstep hmutex, fun h => by cases h⟩
  | sync =>
    have hstep : MainStep s s' := hstep
    exact ⟨hstep.mutex hmutex, fun h => by rw [hstep.copied, hcopied h]⟩

theorem kept_hasCopy (reh : EntryHeader) : Kept (n := n) i (HasCopy i reh) := by
  rintro s s' hstep ⟨hmutex, hmain, hsync⟩
  cases i with
  | main =>
    have hstep : SyncStep s s' := hstep
    exact ⟨hstep.mutex hmutex, fun h => by rw [hstep.unsync, hmain h], fun h => by cases h⟩
  | sync =>
    have hstep : MainStep s s' := hstep
    exact ⟨hstep.mutex hmutex, fun h => (by cases h), fun h => by rw [hstep.copied, hsync h]⟩

theorem kept_caughtUp : Kept (n := n) i (CaughtUp i) := by
  intro s s' hstep h hi
  subst hi
  have hstep : SyncStep s s' := hstep
  have hle := h rfl
  have hsync := hstep.sync
  rw [hstep.unsync]
  exact hle.trans hsync

theorem Kept.and {φ ψ : SyncShared n → Prop} (hφ : Kept i φ) (hψ : Kept i ψ) :
    Kept i fun s => φ s ∧ ψ s :=
  fun s s' hstep h => ⟨hφ s s' hstep h.1, hψ s s' hstep h.2⟩

/-- Nobody has a copy while the mutex is free. -/
theorem InOrder.copied_none (h : InOrder s) (hmutex : s.syncMutex ≠ some .sync) :
    s.copied = none := by
  cases hcopied : s.copied with
  | none => rfl
  | some reh => exact absurd (h.copied reh hcopied).mutex hmutex

/-- The mutex changes hands while nobody has a copy. -/
theorem InOrder.setMutex (h : InOrder s) (hcopied : s.copied = none) (m : Option Thread) :
    InOrder { s with syncMutex := m } := by
  refine ⟨h.toHeadersAgree, h.least, h.async, h.unsync, fun reh hreh => ?_⟩
  rw [hcopied] at hreh
  cases hreh

theorem brings_lockSync : Brings (n := n) i (fun _ => True) (.await .lockSync
    (fun s => decide (s.syncMutex = none)) (modify fun s => { s with syncMutex := some i }))
    fun _ => Locked i := by
  refine Discipline.Meets.await Kept.true.stable (fun _ _ hs => hs.1)
    (fun _ => kept_locked.stable) ?_
  rintro s - ⟨hs, -⟩ hfree -
  have hmutex : s.syncMutex = none := of_decide_eq_true hfree
  have hcopied : s.copied = none := hs.copied_none (by rw [hmutex]; simp)
  have hinOrder := hs.setMutex hcopied (some i)
  refine ⟨trivial, ?_, hinOrder, rfl, fun _ => hcopied⟩
  cases i with
  | main => exact ⟨hinOrder, rfl, fun h => by rw [hmutex] at h; cases h⟩
  | sync => exact ⟨hinOrder, rfl, rfl, le_refl _, fun h => by rw [hmutex] at h; cases h⟩

theorem brings_copyUnsync : Brings (n := n) i (Locked i) (.critical .copyUnsync do
    let unsyncReh ← gets (·.proc.ri.newestUnsync)
    record i (some unsyncReh)
    pure unsyncReh) (HasCopy i) := by
  refine .critical kept_locked kept_hasCopy fun s hs hlocked _ => ?_
  simp only [record, wp_bind, wp_gets, wp_whenever, wp_modify, wp_pure]
  refine ⟨?_, fun hi => ?_⟩
  · rintro rfl
    have hinOrder : InOrder { s with copied := some s.proc.ri.newestUnsync } := by
      refine ⟨hs.toHeadersAgree, hs.least, hs.async, hs.unsync, fun reh hreh => ?_⟩
      cases hreh
      exact ⟨hlocked.1, hs.index, le_refl _, le_refl _, hs.unsync⟩
    exact ⟨⟨hinOrder, rfl, rfl, le_refl _, id⟩, hlocked.1, fun h => (by cases h), fun _ => rfl⟩
  · exact ⟨hs.stays, hlocked.1, fun _ => rfl, fun h => absurd h hi⟩

/-- What is about to be synced is not behind what is synced. -/
theorem brings_checkSync (reh : EntryHeader) :
    Brings i (HasCopy i reh) (.critical .checkSync (onProc do
      let ri ← getRi
      Handler.assert (ri.currentIdx .sync ≤ reh.index))) fun _ => HasCopy (n := n) i reh := by
  refine .critical (kept_hasCopy reh) (fun _ => kept_hasCopy reh) fun s hs hcopy _ => ?_
  have hle : s.proc.ri.newestSync.index ≤ reh.index := by
    obtain ⟨-, hmain, hsync⟩ := hcopy
    cases i with
    | main =>
      rw [← hmain rfl]
      exact hs.index
    | sync => exact (hs.copied reh (hsync rfl)).sync
  rw [wp_onProc_iff]
  simp only [wp_bind, wp_getRi, wp_assert]
  exact ⟨fun _ => ⟨hs.stays, hcopy⟩, fun hno => absurd hle hno⟩

/-- With asynchronous writes the update of a header never fails. -/
theorem wp_updateNewestEntryHdr_async {reh : EntryHeader} {type : NehdrType} {force : Bool}
    {p : Proc n} {Q : Unit → Proc n → Prop} {D : Proc n → Prop}
    (hasync : p.ri.opts.synchronousWrites = false) (hneg : reh.index < 0 → Q () p)
    (hQ : 0 ≤ reh.index → Q () { p with ri := { p.ri with
      newestSync := if type = .unsync then p.ri.newestSync else updateHdr force reh p.ri.newestSync
      newestUnsync :=
        if type = .sync then p.ri.newestUnsync else updateHdr force reh p.ri.newestUnsync } }) :
    (updateNewestEntryHdr reh type force).wp Q D p := by
  have hasync : p.ri.doesSynchronousWrites = false := hasync
  simp only [updateNewestEntryHdr, wp_ite, wp_pure, wp_bind, wp_getRi, wp_whenever, wp_assert,
    wp_modifyRi]
  refine ⟨hneg, fun h0 => ?_⟩
  have hQ := hQ (not_lt.mp h0)
  cases type with
  | sync | unsync | all => simpa [hasync] using hQ

/-- The shared state with another `SYNC` header. -/
def SyncShared.withSync (s : SyncShared n) (reh : EntryHeader) : SyncShared n :=
  { s with proc := { s.proc with ri := { s.proc.ri with newestSync := reh } } }

/-- `SYNC` is moved on, while nobody has a copy besides. -/
theorem InOrder.publish (h : InOrder s) {reh : EntryHeader}
    (hidx : reh.index ≤ s.proc.ri.newestUnsync.index)
    (hterm : reh.term ≤ s.proc.ri.newestUnsync.term) (hheld : reh.HeldIn s.proc.ri.store.db)
    {copied : Option EntryHeader} (hnone : copied = none) :
    InOrder { SyncShared.withSync s (updateHdr false reh s.proc.ri.newestSync) with
      copied := copied } := by
  have hle := le_updateHdr reh s.proc.ri.newestSync
  have hboth : (updateHdr false reh s.proc.ri.newestSync).index ≤ s.proc.ri.newestUnsync.index ∧
      (updateHdr false reh s.proc.ri.newestSync).term ≤ s.proc.ri.newestUnsync.term := by
    unfold updateHdr
    split
    · exact ⟨hidx, hterm⟩
    · exact ⟨h.index, h.term⟩
  refine ⟨⟨hboth.1, hboth.2, heldIn_updateHdr hheld h.held⟩, h.least.trans hle, h.async, h.unsync,
    ?_⟩
  intro reh' hreh'
  rw [hnone] at hreh'
  cases hreh'

/-- A copy is published.  A null header changes nothing, as `SYNC` is null then. -/
theorem wp_publish {reh : EntryHeader} {p : Proc n} {Q : Unit → Proc n → Prop} {D : Proc n → Prop}
    (hasync : p.ri.opts.synchronousWrites = false) (hleast : -1 ≤ p.ri.newestSync.index)
    (hQ : Q () { p with ri := { p.ri with newestSync := updateHdr false reh p.ri.newestSync } }) :
    (updateNewestEntryHdr reh .sync false).wp Q D p := by
  refine wp_updateNewestEntryHdr_async hasync (fun hneg => ?_) fun _ => ?_
  · have hold : updateHdr false reh p.ri.newestSync = p.ri.newestSync := by
      unfold updateHdr
      rw [if_neg (by simp only [Bool.false_eq_true, false_or]; omega)]
    rwa [hold] at hQ
  · simpa using hQ

theorem brings_publishSync (reh : EntryHeader) : Brings (n := n) i (HasCopy i reh)
    (.critical .publishSync do
      onProc (updateNewestEntryHdr reh .sync false)
      record i none) fun _ s => Locked i s ∧ CaughtUp i s := by
  refine .critical (kept_hasCopy reh) (fun _ => kept_locked.and kept_caughtUp)
    fun s hs hcopy _ => ?_
  obtain ⟨hmutex, hmain, hsync⟩ := hcopy
  have hle := le_updateHdr reh s.proc.ri.newestSync
  simp only [wp_bind, wp_onProc_iff, record, wp_whenever, wp_modify]
  refine wp_publish hs.async hs.least ?_
  cases i with
  | main =>
    obtain rfl := hmain rfl
    have hcopied : s.copied = none := hs.copied_none (by rw [hmutex]; simp)
    have hpublished := hs.publish (le_refl _) (le_refl _) hs.unsync hcopied
    refine ⟨fun h => (by cases h), fun _ => ⟨⟨hpublished, rfl, id⟩, ⟨hmutex, fun h => by cases h⟩,
      ?_⟩⟩
    · intro _
      show s.proc.ri.newestUnsync.index ≤
        (updateHdr false s.proc.ri.newestUnsync s.proc.ri.newestSync).index
      unfold updateHdr
      split
      · exact le_refl _
      · rename_i hno
        simp only [Bool.false_eq_true, false_or, not_lt] at hno
        exact hno
  | sync =>
    obtain ⟨-, hfrom, hidx, hterm, hheld⟩ := hs.copied reh (hsync rfl)
    have hpublished := hs.publish hidx hterm hheld rfl
    refine ⟨fun _ => ⟨⟨hpublished, rfl, rfl, hle, id⟩, ⟨hmutex, fun _ => rfl⟩, fun h => by cases h⟩,
      fun h => absurd rfl h⟩

theorem brings_unlockSync (applied : Int) : Brings (n := n) i (fun s => Locked i s ∧ CaughtUp i s)
    (.critical .unlockSync do
      onProc do
        let ri ← getRi
        Handler.assert (ri.lastApplied.syncedIdx ≤ ri.lastApplied.idx)
        Handler.assert (ri.lastApplied.syncedIdx ≤ applied)
        modifyRi fun ri => { ri with lastApplied :=
          { ri.lastApplied with syncedIdx := max ri.lastApplied.syncedIdx applied } }
      modify fun s => { s with syncMutex := none }) fun _ => CaughtUp i := by
  refine .critical (kept_locked.and kept_caughtUp) (fun _ => kept_caughtUp) fun s hs hlocked _ => ?_
  obtain ⟨⟨hmutex, hcopy⟩, hcaught⟩ := hlocked
  simp only [wp_bind, wp_onProc_iff, wp_getRi, wp_assert, wp_modifyRi, wp_modify]
  have hdie : (order n).mayDie .unlockSync := ⟨by decide, by decide⟩
  refine ⟨fun _ => ⟨fun _ => ⟨?_, hcaught⟩, fun _ => hdie⟩, fun _ => hdie⟩
  cases i with
  | main =>
    have hcopied : s.copied = none := hs.copied_none (by rw [hmutex]; simp)
    have hinOrder := hs.setMutex hcopied none
    refine ⟨hinOrder.of_same ⟨rfl, rfl, rfl, rfl, rfl, rfl⟩, rfl, fun h => ?_⟩
    rw [hmutex] at h
    cases h
  | sync =>
    have hinOrder := hs.setMutex (hcopy rfl) none
    refine ⟨hinOrder.of_same ⟨rfl, rfl, rfl, rfl, rfl, rfl⟩, rfl, rfl, le_refl _, fun h => ?_⟩
    rw [hmutex] at h
    cases h

theorem brings_copyApplied : Brings (n := n) i (Locked i)
    (.critical .copyApplied (gets (·.proc.ri.lastApplied.idx))) fun _ => Locked i := by
  refine .critical kept_locked (fun _ => kept_locked) fun s hs hlocked _ => ?_
  exact ⟨hs.stays, hlocked⟩

theorem brings_flush (reh : EntryHeader) : Brings (n := n) i (HasCopy i reh)
    (.critical .backendSync (onProc (durable Store.flush))) fun _ => HasCopy i reh :=
  brings_frame (kept_hasCopy reh) ⟨by decide, by decide⟩ fun _ =>
    wp_durable (fun _ => trivial) fun _ _ => ⟨rfl, rfl, rfl, rfl⟩

/-- `raft_server_backend_sync`. -/
theorem brings_backendSync :
    Brings (n := n) i (fun _ => True) (backendSync i) fun _ => CaughtUp i :=
  .bind brings_lockSync fun _ => .bind brings_copyApplied fun applied =>
    .bind brings_copyUnsync fun reh => .bind (brings_checkSync reh) fun _ =>
    .bind (brings_flush reh) fun _ => .bind (brings_publishSync reh) fun _ =>
    brings_unlockSync applied

/-- The sanity check of the headers passes. -/
theorem brings_hasUnsyncedEntries {φ : SyncShared n → Prop} (hφ : Kept i φ) :
    Brings i φ hasUnsyncedEntries fun _ => φ := by
  refine Brings.critical hφ (fun _ => hφ) fun s hs hP _ => ?_
  have hasync : s.proc.ri.doesSynchronousWrites = false := hs.async
  rw [wp_onProc_iff]
  simp only [RaftServer.hasUnsyncedEntries, wp_bind, wp_getRi, wp_fatalIf, wp_pure]
  refine ⟨?_, fun _ => ⟨hs.stays, hP⟩⟩
  rintro ⟨-, hidx | hterm | hsync⟩
  · exact absurd hs.index (not_le.mpr hidx)
  · exact absurd hs.term (not_le.mpr hterm)
  · rw [hasync] at hsync
    cases hsync

theorem brings_backendSyncPending :
    Brings (n := n) i (fun _ => True) (backendSyncPending i) fun _ _ => True := by
  refine .bind (brings_hasUnsyncedEntries .true) fun unsynced => ?_
  exact .whenever .true (fun _ => brings_backendSync.post fun _ _ _ _ => trivial)
    fun _ _ _ _ => trivial

theorem brings_syncThread : Brings (n := n) .sync (fun _ => True) syncThread fun _ _ => True := by
  refine .bind (brings_hasUnsyncedEntries .true) fun unsynced => ?_
  exact .whenever .true (fun _ => brings_backendSyncPending) fun _ _ _ _ => trivial

/-! ## Writing -/

/-- The main thread has an entry for behind the newest one. -/
def Prepared (re : Entry) (s : SyncShared n) : Prop :=
  0 ≤ re.header.index ∧ re.header.index = s.proc.ri.newestUnsync.index + 1 ∧
    s.proc.ri.newestUnsync.term ≤ re.header.term

/-- It has written it. -/
def Written (re : Entry) (s : SyncShared n) : Prop :=
  Prepared re s ∧ re.header.HeldIn s.proc.ri.store.db

theorem kept_prepared (re : Entry) : Kept (n := n) .main (Prepared re) := by
  rintro s s' hstep ⟨h0, hidx, hterm⟩
  have hstep : SyncStep s s' := hstep
  have hunsync := hstep.unsync
  refine ⟨h0, ?_, ?_⟩
  · rw [hunsync]
    exact hidx
  · rw [hunsync]
    exact hterm

theorem kept_heldIn (reh : EntryHeader) :
    Kept (n := n) .main fun s => reh.HeldIn s.proc.ri.store.db := by
  intro s s' hstep h
  exact (heldIn_congr (SyncStep.entries hstep)).mpr h

theorem brings_prepareEntry [Externals] (term : Int) (data : List UInt8) (sizes : List Nat)
    (marker : Bool) : Brings (n := n) .main (fun _ => True) (.critical .prepareEntry (onProc do
      let ri ← getRi
      Handler.assert (term ≥ ri.newestUnsync.term)
      let nextEntryIdx := ri.newestUnsync.index + 1
      fatalIf (nextEntryIdx < 0)
      fatalIf (ri.entryMaxDataSize < sizes.sum)
      let re ← entryInit nextEntryIdx term data sizes marker
      let valid ← entryNextEntryIsValid re.header
      Handler.assert (valid = true)
      pure re)) Prepared := by
  refine .critical .true kept_prepared fun s hs _ _ => ?_
  have hdie : (order n).mayDie .prepareEntry := ⟨by decide, by decide⟩
  rw [wp_onProc_iff]
  simp only [wp_bind, wp_getRi, wp_assert, wp_fatalIf, wp_pure, entryInit, entryNextEntryIsValid,
    wp_ite]
  refine ⟨fun hterm => ⟨fun _ => hdie, fun hneg => ⟨fun _ => hdie, fun _ => ⟨fun _ => ⟨fun _ =>
    ⟨fun _ => ?_, fun _ => hdie⟩, fun _ => hdie⟩, fun _ => hdie⟩⟩⟩, fun _ => hdie⟩
  have hprepared : Prepared
      (entryOf s.proc.ri (s.proc.ri.newestUnsync.index + 1) term data sizes marker) s :=
    ⟨not_lt.mp hneg, rfl, hterm⟩
  exact ⟨fun _ => ⟨fun _ => ⟨hs.stays, hprepared⟩, fun _ => hdie⟩, fun _ => ⟨fun _ => hdie,
    fun _ => ⟨fun _ => ⟨hs.stays, hprepared⟩, fun _ => hdie⟩⟩⟩

theorem brings_writeEntry (re : Entry) : Brings (n := n) .main (Prepared re)
    (.critical .writeEntry (onProc (entryWriteByStore re))) fun _ => Written re := by
  refine .critical (kept_prepared re) (fun _ => (kept_prepared re).and (kept_heldIn re.header))
    fun s hs hprepared _ => ?_
  obtain ⟨h0, hidx, hterm⟩ := id hprepared
  rw [wp_onProc_iff]
  simp only [entryWriteByStore, wp_bind, wp_getRi]
  refine wp_durable (fun _ => ⟨by decide, by decide⟩) fun fuse _ => ?_
  have hwritten : re.header.HeldIn (s.proc.ri.store.db.write re) := by
    refine fun _ => ⟨re, ?_, rfl⟩
    rw [hs.unsync.getElem_write (by omega) hidx, if_pos (by rw [hidx])]
  refine ⟨⟨⟨⟨hs.index, hs.term, hs.held.write hs.unsync hs.index hidx⟩, hs.least, hs.async,
    hs.unsync.write hs.unsync (le_refl _) hidx, fun reh hreh => ?_⟩, rfl, id⟩, hprepared, hwritten⟩
  obtain ⟨hmutex, hsync, hle, hold, hheld⟩ := hs.copied reh hreh
  exact ⟨hmutex, hsync, hle, hold, hheld.write hs.unsync hle hidx⟩

theorem brings_newestEntry (re : Entry) : Brings (n := n) .main (Written re)
    (.critical .newestEntry (onProc (updateNewestEntryHdr re.header .unsync false)))
    fun _ _ => True := by
  refine .critical ((kept_prepared re).and (kept_heldIn re.header)) (fun _ => .true)
    fun s hs hwritten _ => ?_
  obtain ⟨⟨h0, hidx, hterm⟩, hheld⟩ := hwritten
  rw [wp_onProc_iff]
  refine wp_updateNewestEntryHdr_async hs.async (fun hneg => absurd h0 (not_le.mpr hneg))
    fun _ => ?_
  have hnew : updateHdr false re.header s.proc.ri.newestUnsync = re.header := by
    unfold updateHdr
    rw [if_pos (by right; omega)]
  have hlt : s.proc.ri.newestUnsync.index < re.header.index := by omega
  simp only [if_true, hnew, reduceCtorEq, if_false]
  refine ⟨⟨⟨⟨hs.index.trans hlt.le, hs.term.trans hterm, hs.held⟩, hs.least, hs.async, hheld,
    fun reh hreh => ?_⟩, rfl, id⟩, trivial⟩
  obtain ⟨hmutex, hsync, hle, hold, hkept⟩ := hs.copied reh hreh
  exact ⟨hmutex, hsync, hle.trans hlt.le, hold.trans hterm, hkept⟩

/-- `raft_server_write_next_entry`. -/
theorem brings_writeNextEntry [Externals] (term : Int) (data : List UInt8) (sizes : List Nat)
    (marker : Bool) :
    Brings (n := n) .main (fun _ => True) (writeNextEntry term data sizes marker) fun _ _ => True :=
  .bind (brings_prepareEntry term data sizes marker) fun re =>
    .bind (brings_writeEntry re) fun _ => brings_newestEntry re

/-- `raft_server_log_header_write`. -/
theorem brings_logHeaderWrite (candidate : Option (Fin n)) (term : Int) :
    Brings .main (fun _ => True) (logHeaderWrite candidate term) fun _ _ => True := by
  refine .bind (brings_frame .true ⟨by decide, by decide⟩ fun p => ?_) fun _ => ?_
  · simp only [logHeaderWritePrep, wp_bind, wp_getRi, wp_fatalIf, wp_modifyRi]
    exact ⟨fun _ => trivial, fun _ => ⟨rfl, rfl, rfl, rfl⟩⟩
  refine .bind (brings_frame .true ⟨by decide, by decide⟩ fun p => ?_) fun _ => ?_
  · simp only [headerWrite, wp_bind, wp_getRi]
    exact wp_durable (fun _ => trivial) fun _ _ => ⟨rfl, rfl, rfl, rfl⟩
  exact brings_backendSync.post fun _ _ _ _ => trivial

/-! ## Pruning -/

/-- The main thread reads the entry before those that it prunes. -/
theorem brings_readHeader (raerq : AppendEntriesRequestMsg) : Brings (n := n) .main (CaughtUp .main)
    (.critical .readHeader (onProc do
      let reh ← entryHeaderReadByStore raerq.prevLogIndex
      match reh with
      | .error _ => Handler.abort
      | .ok reh => pure reh)) fun reh s => CaughtUp .main s ∧ reh.HeldIn s.proc.ri.store.db := by
  refine .critical kept_caughtUp (fun reh => kept_caughtUp.and (kept_heldIn reh))
    fun s hs hcaught _ => ?_
  have hdie : (order n).mayDie .readHeader := ⟨by decide, by decide⟩
  rw [wp_onProc_iff, wp_bind]
  refine wp_entryHeaderReadByStore_validated hdie (fun rc _ => hdie) fun re h0 _ hre hidx => ?_
  refine ⟨hs.stays, hcaught, fun _ => ⟨re, ?_, rfl⟩⟩
  rw [hidx]
  exact hre

/-- Both headers are moved back.  No copy is under way. -/
theorem brings_forceNewest (reh : EntryHeader) : Brings (n := n) .main
    (fun s => CaughtUp .main s ∧ reh.HeldIn s.proc.ri.store.db)
    (.critical .forceNewest (onProc (updateNewestEntryHdr reh .all true)))
    fun _ => CaughtUp .main := by
  refine .critical (kept_caughtUp.and (kept_heldIn reh)) (fun _ => kept_caughtUp)
    fun s hs hφ hrun => ?_
  obtain ⟨hcaught, hheld⟩ := hφ
  have hcopied : s.copied = none := hrun rfl rfl
  rw [wp_onProc_iff]
  refine wp_updateNewestEntryHdr_async hs.async (fun _ => ⟨hs.stays, hcaught⟩) fun h0 => ?_
  have hforced : ∀ tgt, updateHdr true reh tgt = reh := fun tgt => if_pos (.inl rfl)
  simp only [hforced, reduceCtorEq, if_false]
  refine ⟨⟨⟨⟨le_refl _, le_refl _, hheld⟩, ?_, hs.async, hheld, fun reh' hreh' => ?_⟩, rfl, id⟩,
    fun _ => le_refl _⟩
  · show -1 ≤ reh.index
    omega
  · have hreh' : s.copied = some reh' := hreh'
    rw [hcopied] at hreh'
    cases hreh'

/-- The log is cut behind `UNSYNC`. -/
theorem brings_logTruncate :
    Brings (n := n) .main (CaughtUp .main) logTruncate fun _ _ => True := by
  have hkept : ∀ idx : Int, Kept (n := n) .main fun s => s.proc.ri.newestUnsync.index ≤ idx := by
    intro idx s s' hstep h
    rw [SyncStep.unsync hstep]
    exact h
  have hcurrent : Brings (n := n) .main (CaughtUp .main)
      (.critical .currentSync (gets (·.proc.ri.currentIdx .sync)))
      fun idx s => s.proc.ri.newestUnsync.index ≤ idx := by
    refine .critical kept_caughtUp hkept fun s hs hcaught _ => ?_
    exact ⟨hs.stays, hcaught rfl⟩
  refine .bind hcurrent fun idx => .critical (hkept idx) (fun _ => .true) fun s hs hle _ => ?_
  have hdie : (order n).mayDie .truncate := ⟨by decide, by decide⟩
  rw [wp_onProc_iff]
  simp only [wp_bind, wp_assert]
  refine ⟨fun _ => wp_durable (fun _ => hdie) fun fuse _ => ?_, fun _ => hdie⟩
  refine ⟨⟨⟨⟨hs.index, hs.term, hs.held.truncate (hs.index.trans hle)⟩, hs.least, hs.async,
    hs.unsync.truncate hle, fun reh hreh => ?_⟩, rfl, id⟩, trivial⟩
  obtain ⟨hmutex, hsync, hidx, hold, hheld⟩ := hs.copied reh hreh
  exact ⟨hmutex, hsync, hidx, hold, hheld.truncate (hidx.trans hle)⟩

/-- `raft_server_append_entry_log_prune_if_needed`. -/
theorem brings_appendEntryLogPruneIfNeeded (raerq : AppendEntriesRequestMsg) :
    Brings (n := n) .main (fun _ => True) (appendEntryLogPruneIfNeeded raerq) fun _ _ => True := by
  refine .bind (brings_frame .true ⟨by decide, by decide⟩ fun p => ?_) fun _ => ?_
  · simp only [wp_bind, wp_getRi, wp_assert]
    exact ⟨fun _ => ⟨fun _ => .refl _, fun _ => trivial⟩, fun _ => trivial⟩
  refine .bind brings_backendSync fun _ => ?_
  refine .bind (brings_frame kept_caughtUp ⟨by decide, by decide⟩ fun p => ?_) fun _ => ?_
  · simp only [wp_bind, wp_getRi, wp_fatalIf]
    exact ⟨fun _ => trivial, fun _ => .refl _⟩
  refine .bind (.whenever kept_caughtUp (fun _ => ?_) fun _ _ _ hcaught => hcaught)
    fun _ => brings_logTruncate
  exact .bind (brings_readHeader raerq) brings_forceNewest

/-- `raft_server_append_entry_log_prepare_and_check`. -/
theorem brings_appendEntryLogPrepareAndCheck (raerq : AppendEntriesRequestMsg) :
    Brings (n := n) .main (fun _ => True) (appendEntryLogPrepareAndCheck raerq)
      fun _ _ => True := by
  refine .bind (brings_frame .true ⟨by decide, by decide⟩ fun p => LogKept.refl _) fun ahead => ?_
  refine .whenever .true (fun _ => ?_) fun _ _ _ _ => trivial
  refine .bind (brings_frame .true ⟨by decide, by decide⟩ fun p => ?_) fun stored => ?_
  · exact wp_appendEntryCheckAlreadyStored trivial (fun _ => .refl _) (fun _ _ => .refl _)
      fun _ _ => .refl _
  refine .whenever .true (fun _ => ?_) fun _ _ _ _ => trivial
  refine .bind (brings_appendEntryLogPruneIfNeeded raerq) fun _ => ?_
  refine .bind (brings_hasUnsyncedEntries .true) fun unsynced => ?_
  refine .critical .true (fun _ => .true) fun s hs _ _ => ?_
  rw [wp_assert]
  exact ⟨fun _ => ⟨hs.stays, trivial⟩, fun _ => ⟨by decide, by decide⟩⟩

/-! ## All programs -/

/-- Applying an entry leaves the headers and the log. -/
theorem logKept_stateMachineApply [Externals] (cb : SmRequestCb) (p : Proc n) :
    (RaftServer.stateMachineApply cb).wp (fun _ p' => LogKept p.ri p'.ri) (fun _ => True) p := by
  have happlies : Applies (RaftServer.stateMachineApply cb) p := applies_stateMachineApply
  have hinv := happlies.invariant (P := fun v : Visible n => LogKept p.ri v.1) ?_ (.refl _)
  · exact wp_mono hinv (fun _ _ h => h) fun _ _ => trivial
  · intro v v' hv hstep
    cases hstep with
    | record la batch =>
      refine ⟨hv.opts, hv.newestSync, hv.newestUnsync, ?_⟩
      rw [← hv.entries]
      simp only [RaftInstance.recordApplied]
      split <;> rfl

theorem brings_program [Externals] (i : Thread) (op : Op n) :
    Brings i (fun _ => True) (program i op) fun _ _ => True := by
  cases i with
  | sync => exact brings_syncThread
  | main =>
    cases op with
    | syncThread => exact Discipline.Meets.ret Kept.true.stable fun _ _ hs => hs
    | write term data sizes marker => exact brings_writeNextEntry term data sizes marker
    | append raerq => exact brings_appendEntryLogPrepareAndCheck raerq
    | header candidate term => exact brings_logHeaderWrite candidate term
    | syncPending => exact brings_backendSyncPending
    | apply cb => exact brings_frame .true ⟨by decide, by decide⟩ (logKept_stateMachineApply cb)
    | elsewhere change =>
      refine brings_frame .true ⟨by decide, by decide⟩ fun p => ?_
      exact ⟨change.opts _, change.newestSync _, change.newestUnsync _, change.entries _⟩

theorem order_sound [Externals] (n : Nat) : (order n).Sound program where
  compatible i j hne s s' hstep := by
    cases i with
    | main =>
      cases j with
      | main => exact absurd rfl hne
      | sync => exact hstep
    | sync =>
      cases j with
      | main => exact hstep
      | sync => exact absurd rfl hne
  idle i := by
    rintro s s' - - hstep -
    exact hstep.inOrder
  meets i op := by
    have hmeets : (order n).Meets i (fun _ => InOrder) (program i op) fun s => InOrder s ∧ True :=
      Discipline.Meets.post (brings_program i op) fun _ _ _ hs => hs.1
    refine hmeets.pre ?_ fun _ _ hs => ⟨hs, trivial⟩
    rintro s s' - - hstep -
    exact hstep.inOrder

/-- A process that has started. -/
theorem inOrder_started {p : Fin n} {o : Options} {d : Db n} (hasync : o.synchronousWrites = false)
    (hrun : (instanceRun p o d).procState = .running) :
    InOrder (started (instanceRun p o d)) := by
  obtain ⟨hheld, hscanned⟩ := instanceRun_scanned p o d
  obtain ⟨hsynced, hleast, -⟩ := hscanned hrun
  refine ⟨⟨?_, ?_, ?_⟩, ?_, ?_, hheld, fun reh hreh => (by cases hreh)⟩
  · exact le_of_eq (congrArg EntryHeader.index hsynced)
  · exact le_of_eq (congrArg EntryHeader.term hsynced)
  · show (instanceRun p o d).newestSync.HeldIn _
    rw [hsynced]
    exact hheld
  · show -1 ≤ (instanceRun p o d).newestSync.index
    rw [hsynced]
    exact hleast
  · show (instanceRun p o d).opts.synchronousWrites = false
    rw [(instanceRun_loaded p o d).opts]
    exact hasync

/-- In every interleaving in which the main thread moves the headers back only while the sync thread
has no copy, the headers agree at every point, and neither check of them fails. -/
theorem headers_agree [Externals] {p : Fin n} {o : Options} {d : Db n}
    (hasync : o.synchronousWrites = false) (hrun : (instanceRun p o d).procState = .running)
    {c : Threads Thread SyncSection (SyncShared n)}
    (h : Threads.Reach program ForcesAlone (started (instanceRun p o d)) c) :
    (c.died = none → HeadersAgree c.shared.proc.ri) ∧ c.died ≠ some .hasUnsyncedEntries ∧
      c.died ≠ some .checkSync := by
  have hinOrder := inOrder_started hasync hrun
  have hkeeps : (order n).Keeps c := by
    refine (order_sound n).keeps (fun c e he i label hevent hnext hi hlabel => ?_) trivial
      (fun _ => hinOrder) h
    subst hevent hi hlabel
    exact he hnext
  refine ⟨fun halive => ?_, fun hdied => (hkeeps.died _ hdied).1 rfl, fun hdied =>
    (hkeeps.died _ hdied).2 rfl⟩
  cases hnext : (c.progs .main).next with
  | none => exact (hkeeps.idle halive hnext).toHeadersAgree
  | some label => exact (hkeeps.asserts halive hnext).toHeadersAgree

/-! ## A copy that is published late -/

/-- Sections of one thread in a row. -/
def runsOf (i : Thread) (k : Nat) : List (ThreadEvent Thread (Op 3)) := List.replicate k (.run i)

/-- The main thread writes an entry. -/
def entryWritten (term : Int) : List (ThreadEvent Thread (Op 3)) :=
  .begin .main (.write term [7] [1] false) :: runsOf .main 3

/-- The leader of term 2 holds the first entry, and another one after it. -/
def prunesSecond : AppendEntriesRequestMsg where
  leaderTerm := 2
  logTerm := 2
  commitIndex := -1
  lowestIndex := 0
  chkptIndex := -1
  prevLogTerm := 1
  prevLogIndex := 0
  prevIdxCrc := 0
  thisIdxCrc := 0
  sizeArr := [1]
  entriesSz := 1
  numEntries := 1
  heartbeatMsg := false
  leaderChangeMarker := false
  entryOutOfRange := false
  entries := [7]

/-- With two entries in the log, the sync thread has seen that they are not synced, and the main
thread has done so for a prune. -/
def syncedForPrune : List (ThreadEvent Thread (Op 3)) :=
  entryWritten 1 ++ entryWritten 1 ++ .begin .sync .syncThread :: runsOf .sync 2 ++
    .begin .main (.append prunesSecond) :: runsOf .main 11

/-- The sync thread syncs before the main thread moves the headers back, all of it. -/
def syncsBefore : List (ThreadEvent Thread (Op 3)) :=
  syncedForPrune ++ runsOf .sync 7 ++ runsOf .main 6

/-- The sync thread copies a header before the main thread moves the headers back, and publishes it
after that. -/
def syncsAround : List (ThreadEvent Thread (Op 3)) :=
  syncedForPrune ++ runsOf .sync 3 ++ runsOf .main 2 ++ runsOf .sync 3

/-- A server of three on an empty database, after these events. -/
def afterFresh (es : List (ThreadEvent Thread (Op 3))) :
    Threads Thread SyncSection (SyncShared 3) :=
  Threads.runs (@program 3 sampleExternals)
    (.start (started (instanceRun 0 (threeServers 0) freshDb))) es

theorem reach_syncsBefore : @Threads.Reach Thread (Op 3) SyncSection (SyncShared 3) _
    (@program 3 sampleExternals) ForcesAlone (started (instanceRun 0 (threeServers 0) freshDb))
    (afterFresh syncsBefore) :=
  Threads.Reach.start.runs (by decide +kernel)

theorem headers_agree_syncsBefore :
    ((afterFresh syncsBefore).shared.proc.ri.newestUnsync.index = 0 ∧
      (afterFresh syncsBefore).died = none) ∧
    HeadersAgree (afterFresh syncsBefore).shared.proc.ri := by
  have hdied : (afterFresh syncsBefore).died = none := by decide +kernel
  have hrun : (instanceRun (0 : Fin 3) (threeServers 0) freshDb).procState = .running := by
    decide +kernel
  refine ⟨⟨by decide +kernel, hdied⟩, ?_⟩
  exact (@headers_agree 3 sampleExternals 0 (threeServers 0) freshDb rfl hrun _
    reach_syncsBefore).1 hdied

/-- Published late, the copy is ahead of `UNSYNC`.  Nothing is pruned, and the process dies. -/
theorem not_headers_agree :
    ∃ c, @Threads.Reach Thread (Op 3) SyncSection (SyncShared 3) _ (@program 3 sampleExternals)
      (fun _ _ => True) (started (instanceRun 0 (threeServers 0) freshDb)) c ∧
      c.died = none ∧ ¬HeadersAgree c.shared.proc.ri ∧
      (Threads.runs (@program 3 sampleExternals) c (runsOf .main 3)).died =
        some .hasUnsyncedEntries := by
  refine ⟨afterFresh syncsAround, ?_, by decide +kernel, fun h => ?_, by decide +kernel⟩
  · exact Threads.Reach.start.runs (.of_forall (fun _ _ => trivial) _ _)
  · have hahead : (afterFresh syncsAround).shared.proc.ri.newestUnsync.index <
        (afterFresh syncsAround).shared.proc.ri.newestSync.index := by decide +kernel
    exact absurd h.index (not_le.mpr hahead)

end SyncThread

end NiovaRaft
