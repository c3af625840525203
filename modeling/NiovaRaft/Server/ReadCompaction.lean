import NiovaRaft.Model.ChkptThread
import NiovaRaft.Safety.LogMatching
import NiovaRaft.Spec.Checksum

/-!
# Reads beside compaction

An index that is registered is never compacted.  A reader that registers in time gets what is
stored, and a header that was compacted before is refused with `-ERANGE`.  Two kinds of reads are
late.  One whose index is compacted between the two checks fails an assertion, as the second check
does not return `-ERANGE`.  The other is a read of an entry, all of it, that was compacted before
the first check: `raft_server_entry_read` does not look at the result, and looks at memory that
nothing was read into.  No read goes wrong in another way.
-/

namespace NiovaRaft

open Base Base.Handler RaftServer

variable {n : Nat}

/-- What was read is what is stored, or it is refused as it was compacted. -/
inductive Returned.Honest (r : Returned) : Prop
  | header (re : Entry) (hstored : r.stored = some re) (hfilled : r.filled = true)
      (hresult : r.result = .ok (.header re.header))
  | entry (re : Entry) (hstored : r.stored = some re) (hfilled : r.filled = true)
      (hresult : r.result = .ok (.data re.data))
  | compacted (hlow : r.idx < r.lowestIdx) (hresult : r.result = .error (-ChkptThread.ERANGE))

/-- The entry was compacted, and what its reader looked at was not read. -/
structure Returned.Unread (r : Returned) : Prop where
  compacted : r.idx < r.lowestIdx
  unfilled : r.filled = false
  entry : ∀ reh, r.result ≠ .ok (.header reh)

namespace ChkptThread

/-! ## What the threads do to each other -/

/-- What the main thread does to what the checkpoint thread knows. -/
structure MainStep (s s' : ReadShared n) : Prop where
  lowest : s'.ri.lowestIdx = s.ri.lowestIdx
  synced : s.ri.lastApplied.syncedIdx ≤ s'.ri.lastApplied.syncedIdx

/-- What the checkpoint thread does to what the main thread knows. -/
structure ChkptStep (s s' : ReadShared n) : Prop where
  entries : s'.ri.store.db.entries = s.ri.store.db.entries
  opts : s'.ri.opts = s.ri.opts
  selfUuid : s'.selfUuid = s.selfUuid
  raftUuid : s'.raftUuid = s.raftUuid
  pending : s'.pendingReadIdx = s.pendingReadIdx
  lowest : s.ri.lowestIdx ≤ s'.ri.lowestIdx

/-- The steps of a thread. -/
def StepOf : ReadThread → ReadShared n → ReadShared n → Prop
  | .main => MainStep
  | .chkpt => ChkptStep

theorem StepOf.refl (i : ReadThread) (s : ReadShared n) : StepOf i s s := by
  cases i with
  | main => exact ⟨rfl, le_refl _⟩
  | chkpt => exact ⟨rfl, rfl, rfl, rfl, rfl, le_refl _⟩

/-- The steps of the other thread. -/
def StepOfOther : ReadThread → ReadShared n → ReadShared n → Prop
  | .main => ChkptStep
  | .chkpt => MainStep

variable {i : ReadThread} {s s' : ReadShared n}

/-- The other thread cannot invalidate `φ`. -/
def Kept (i : ReadThread) (φ : ReadShared n → Prop) : Prop :=
  ∀ s s', StepOfOther i s s' → φ s → φ s'

theorem Kept.true : Kept (n := n) i fun _ => True := fun _ _ _ _ => trivial

theorem Kept.and {φ φ' : ReadShared n → Prop} (hφ : Kept i φ) (hφ' : Kept i φ') :
    Kept i fun s => φ s ∧ φ' s :=
  fun s s' hstep h => ⟨hφ s s' hstep h.1, hφ' s s' hstep h.2⟩

/-! ## The reads and the threads -/

section Reads

variable [Externals]

/-- The log of a server can be read, and is not compacted past what is applied and synced. -/
structure Readable (ri : RaftInstance n) : Prop where
  consistent : Consistent ri
  checksums : ChecksumsHold ri.store.db
  lowest : ri.lowestIdx ≤ max 0 ri.lastApplied.syncedIdx

/-- Anything that the main thread does between two reads: it leaves the log readable and does not
compact it, and what is applied and synced does not go back. -/
structure BetweenReads (n : Nat) where
  run : RaftInstance n → RaftInstance n
  readable : ∀ ri, Readable ri → Readable (run ri)
  lowestIdx : ∀ ri, (run ri).lowestIdx = ri.lowestIdx
  synced : ∀ ri, ri.lastApplied.syncedIdx ≤ (run ri).lastApplied.syncedIdx

/-- What a thread may be made to do.  A read comes with what its memory holds before.  The sender is
called for the entry after one that a follower has, or for the first. -/
inductive ReadOp (n : Nat) where
  | readHeader (idx : Int) (unread : StoredHeader)
  | readEntry (idx : Int) (len : Nat) (unread : EntryBuf)
  | send (peerNextRaftIdx : Nat) (unread : EntryBuf)
  | between (change : BetweenReads n)
  | reap (numKeepEntries : Int)

/-- The programs of the threads. -/
def program : ReadThread → ReadOp n → ReadProg n Unit
  | .main, .readHeader idx unread => do
      let _ ← entryHeaderReadByStore unread idx
      pure ()
  | .main, .readEntry idx len unread => do
      let _ ← entryRead idx len unread
      pure ()
  | .main, .send idx unread => appendEntrySenderRead idx unread
  | .main, .between change =>
      .critical .elsewhere (modify fun s => { s with ri := change.run s.ri })
  | .main, .reap _ => pure ()
  | .chkpt, .reap numKeepEntries => reapLog numKeepEntries
  | .chkpt, _ => pure ()

/-- The index is one of the log.  With a length it is of an entry with so much data. -/
def Wanted (ri : RaftInstance n) (idx : Int) (len : Option Nat) : Prop :=
  0 ≤ idx ∧ idx ≤ ri.newestUnsync.index ∧
    ∀ l ∈ len, 0 < l ∧ ∀ re ∈ ri.store.db.entries[idx.toNat]?, re.header.dataSize = l

/-- What callers ask for. -/
def Asked (ri : RaftInstance n) : ReadSection → Prop
  | .entrySize idx len => Wanted ri idx (some len)
  | .rangeCheck idx len => Wanted ri idx len
  | _ => True

/-- The index is not compacted where a reader is to register it.  For an entry it is not compacted
where its range is checked, either. -/
def InTime (ri : RaftInstance n) : ReadSection → Prop
  | .rangeCheck idx (some _) => ri.lowestIdx ≤ idx
  | .registerIdx idx => ri.lowestIdx ≤ idx
  | _ => True

/-- The sections that a late reader may die in. -/
def DiesLate (label : ReadSection) : Prop := label = .assertErange ∨ label = .checkEntry

instance decidableWanted (ri : RaftInstance n) (idx : Int) (len : Option Nat) :
    Decidable (Wanted ri idx len) :=
  inferInstanceAs (Decidable (_ ∧ _ ∧ _))

instance decidableAsked (ri : RaftInstance n) : ∀ label, Decidable (Asked ri label)
  | .entrySize idx len => decidableWanted ri idx (some len)
  | .rangeCheck idx len => decidableWanted ri idx len
  | .registerIdx _ | .assertErange | .headerRead | .dataRead | .unregisterIdx | .checkRead
  | .returned | .checkHeader | .checkEntry | .compactMaxIdx | .lowestIdx | .increaseLowestIdx
  | .logReap | .elsewhere => .isTrue trivial

instance decidableInTime (ri : RaftInstance n) : ∀ label, Decidable (InTime ri label)
  | .rangeCheck idx (some _) => inferInstanceAs (Decidable (ri.lowestIdx ≤ idx))
  | .registerIdx idx => inferInstanceAs (Decidable (ri.lowestIdx ≤ idx))
  | .rangeCheck _ none | .entrySize _ _ | .assertErange | .headerRead | .dataRead | .unregisterIdx
  | .checkRead | .returned | .checkHeader | .checkEntry | .compactMaxIdx | .lowestIdx
  | .increaseLowestIdx | .logReap | .elsewhere => .isTrue trivial

/-- The callers ask for what there is. -/
def ReadsAsked (c : Threads ReadThread ReadSection (ReadShared n)) :
    ThreadEvent ReadThread (ReadOp n) → Prop
  | .begin _ _ => True
  | .run i => ∀ label ∈ (c.progs i).next, Asked c.shared.ri label

/-- The callers ask for what there is, and no reader is late. -/
def ReadsInTime (c : Threads ReadThread ReadSection (ReadShared n)) :
    ThreadEvent ReadThread (ReadOp n) → Prop
  | .begin _ _ => True
  | .run i => ∀ label ∈ (c.progs i).next, Asked c.shared.ri label ∧ InTime c.shared.ri label

instance decidableReadsAsked (c : Threads ReadThread ReadSection (ReadShared n)) :
    ∀ e : ThreadEvent ReadThread (ReadOp n), Decidable (ReadsAsked c e)
  | .begin _ _ => .isTrue trivial
  | .run i => inferInstanceAs (Decidable (∀ label ∈ (c.progs i).next, _))

instance decidableReadsInTime (c : Threads ReadThread ReadSection (ReadShared n)) :
    ∀ e : ThreadEvent ReadThread (ReadOp n), Decidable (ReadsInTime c e)
  | .begin _ _ => .isTrue trivial
  | .run i => inferInstanceAs (Decidable (∀ label ∈ (c.progs i).next, _))

/-! ## The discipline -/

/-- What holds between any two sections, where readers may be late or are not. -/
structure Safe (late : Prop) (s : ReadShared n) : Prop extends Readable s.ri where
  pending : s.pendingReadIdx ≠ entryIdxAny →
    0 ≤ s.pendingReadIdx ∧ s.ri.lowestIdx ≤ s.pendingReadIdx
  returned : ∀ r ∈ s.returned, 0 ≤ r.idx → r.Honest ∨ late ∧ r.Unread

/-- No read is under way. -/
def Idle (s : ReadShared n) : Prop := s.pendingReadIdx = entryIdxAny

/-- What holds while a thread is idle. -/
def AtRest : ReadThread → ReadShared n → Prop
  | .main => Idle
  | .chkpt => fun _ => True

/-- What the threads keep to.  Where no reader is late, the process does not die. -/
def reads (n : Nat) (late : Prop) : Discipline ReadThread ReadSection (ReadShared n) where
  inv := Safe late
  rely := StepOfOther
  guar := StepOf
  idle := AtRest
  asserts := fun _ _ _ => True
  mayRun := fun _ label s => Asked s.ri label ∧ (¬late → InTime s.ri label)
  mayDie := fun label => late ∧ DiesLate label

/-- Run by thread `i`, the program takes the shared state from `φ` to `ψ`. -/
abbrev Brings {α : Type} (late : Prop) (i : ReadThread) (φ : ReadShared n → Prop)
    (p : ReadProg n α) (ψ : α → ReadShared n → Prop) : Prop :=
  (reads n late).Meets i ψ p φ

variable {late : Prop}

section Rules

variable {α β : Type} {φ φ' : ReadShared n → Prop} {ψ : α → ReadShared n → Prop}

theorem Kept.stable (hφ : Kept i φ) : (reads n late).Stable i φ :=
  fun s s' _ _ hstep h => hφ s s' hstep h

/-- One section that a late reader may die in. -/
theorem Brings.orDies {label : ReadSection} {m : Handler (ReadShared n) α} (hφ : Kept i φ)
    (hψ : ∀ a, Kept i (ψ a))
    (h : ∀ s, Safe late s → φ s → Asked s.ri label → (¬late → InTime s.ri label) →
      m.wp (fun a s' => Safe late s' ∧ StepOf i s s' ∧ ψ a s')
        (fun d => Safe late d ∧ late ∧ DiesLate label) s) :
    Brings late i φ (.critical label m) ψ := by
  refine Discipline.Meets.await hφ.stable (fun _ _ _ => trivial) (fun a => (hψ a).stable) ?_
  intro s hs hP _ hrun
  exact h s hs hP hrun.1 hrun.2

/-- One section. -/
theorem Brings.critical {label : ReadSection} {m : Handler (ReadShared n) α} (hφ : Kept i φ)
    (hψ : ∀ a, Kept i (ψ a))
    (h : ∀ s, Safe late s → φ s → Asked s.ri label → (¬late → InTime s.ri label) →
      m.wp (fun a s' => Safe late s' ∧ StepOf i s s' ∧ ψ a s') (fun _ => False) s) :
    Brings late i φ (.critical label m) ψ :=
  .orDies hφ hψ fun s hs hP hasked htime =>
    wp_mono (h s hs hP hasked htime) (fun _ _ hpost => hpost) fun _ hno => hno.elim

end Rules

/-! ## Registering -/

/-- The entry is stored at the index, with so much data if there is a length. -/
def StoredAt (idx : Int) (len : Option Nat) (re : Entry) (s : ReadShared n) : Prop :=
  s.ri.store.db.entries[idx.toNat]? = some re ∧ ∀ l ∈ len, 0 < l ∧ re.header.dataSize = l

/-- The index is registered. -/
def Registered (idx : Int) (s : ReadShared n) : Prop := s.pendingReadIdx = idx

/-- The index is registered, and the entry is stored there. -/
def Reading (idx : Int) (len : Option Nat) (re : Entry) (s : ReadShared n) : Prop :=
  StoredAt idx len re s ∧ Registered idx s

/-- What is registered can be read. -/
theorem Reading.read {idx : Int} {len : Option Nat} {re : Entry} (hs : Safe late s) (h0 : 0 ≤ idx)
    (h : Reading idx len re s) : s.ri.store.db.read idx.toNat = some re := by
  obtain ⟨⟨hstored, -⟩, hreg⟩ := h
  have hreg : s.pendingReadIdx = idx := hreg
  have hsome : s.pendingReadIdx ≠ entryIdxAny := by
    rw [hreg, entryIdxAny]
    omega
  have hlow := (hs.pending hsome).2
  have hreaped := hs.consistent.reaped
  have hle : s.ri.store.db.reaped ≤ idx.toNat := by omega
  rw [Db.read, if_pos hle, hstored]

/-- The entry has been read into the buffer, all of it. -/
def EntryRead (re : Entry) (r : Int × EntryBuf) (s : ReadShared n) : Prop :=
  r = ((re.header.dataSize : Int) + entryHeaderSize, ⟨s.storedHeader re.header, re.data⟩)

omit [Externals] in
theorem EntryRead.pos {re : Entry} {r : Int × EntryBuf} (h : EntryRead re r s) : 0 < r.1 := by
  rw [h]
  refine add_pos_of_nonneg_of_pos (Int.natCast_nonneg _) ?_
  decide

section Common

variable {Got : Entry → Int × EntryBuf → ReadShared n → Prop}

end Common

/-- What a reader that returns adds to the record. -/
theorem Safe.returns (hs : Safe late s) {r : Returned}
    (h : 0 ≤ r.idx → r.Honest ∨ late ∧ r.Unread) :
    Safe late { s with returned := s.returned ++ [r] } := by
  refine ⟨hs.toReadable, hs.pending, fun r' hr' => ?_⟩
  rcases List.mem_append.mp hr' with hold | hnew
  · exact hs.returned r' hold
  · obtain rfl := List.mem_singleton.mp hnew
    exact h

/-- The index that is compacted to is not above what was applied and synced. -/
theorem Safe.raise (hs : Safe late s) {idx : Int} (hlow : s.ri.lowestIdx ≤ idx)
    (hsynced : idx ≤ max 0 s.ri.lastApplied.syncedIdx)
    (hpending : ¬(s.pendingReadIdx ≠ entryIdxAny ∧ s.pendingReadIdx < idx)) :
    Safe late { s with ri := { s.ri with lowestIdx := idx } } := by
  have hreaped := hs.consistent.reaped
  refine ⟨⟨{ hs.consistent with reaped := ?_ }, hs.checksums, hsynced⟩, fun hsome => ?_,
    hs.returned⟩
  · change (s.ri.store.db.reaped : Int) ≤ max 0 idx
    omega
  · exact ⟨(hs.pending hsome).1, not_lt.mp fun hlt => hpending ⟨hsome, hlt⟩⟩

/-- Entries below the lowest index go. -/
theorem Safe.reap (hs : Safe late s) {idx : Int} (hlow : idx ≤ s.ri.lowestIdx) :
    Safe late { s with ri := { s.ri with
      store := s.ri.store.put (s.ri.store.db.reap idx.toNat) true } } := by
  have hreaped := hs.consistent.reaped
  refine ⟨⟨{ hs.consistent with reaped := ?_ }, hs.checksums, hs.lowest⟩, hs.pending, hs.returned⟩
  change ((max s.ri.store.db.reaped idx.toNat : Nat) : Int) ≤ max 0 s.ri.lowestIdx
  omega

/-- A server of a cluster can be read, as far as what is compacted is in order. -/
theorem Readable.of_reach {ok : Cluster n → Event n → Prop} {opts : Fin n → Options}
    {c : Cluster n} (h : Cluster.Reach ok opts c) {p : Fin n}
    (hrun : (c.servers p).procState = .running)
    (hlow : (c.servers p).lowestIdx ≤ max 0 (c.servers p).lastApplied.syncedIdx) :
    Readable (c.servers p) :=
  ⟨h.consistent hrun, (h.checksumsHold p).db, hlow⟩

theorem Safe.started {ri : RaftInstance n} (hri : Readable ri) (selfUuid raftUuid : Nat) :
    Safe late (started ri selfUuid raftUuid) :=
  ⟨hri, fun hsome => absurd rfl hsome, fun r hr => by cases hr⟩

end Reads

/-! ## A long log -/

/-- A server of three that has applied and synced so many entries. -/
def longLog (k : Nat) : RaftInstance 3 :=
  let ri := instanceRun 0 (threeServers 0) freshDb
  let entries := (List.range k).map fun i : Nat => @entryOf 3 sampleExternals ri i 0 [7] [1] false
  { ri with
    store := ri.store.put { ri.store.db with entries := entries } true
    newestSync := lastHeader entries
    newestUnsync := lastHeader entries
    lastApplied := { ri.lastApplied with idx := k - 1, syncedIdx := k - 1 } }

/-- What the threads of three servers may be made to do. -/
abbrev SampleOp : Type := @ReadOp sampleExternals 3

/-- Sections of one thread in a row. -/
def readSections (i : ReadThread) (k : Nat) :
    List (ThreadEvent ReadThread (SampleOp)) :=
  List.replicate k (.run i)

/-- So many sections of a compaction that keeps 500 entries. -/
def reaps (k : Nat) : List (ThreadEvent ReadThread SampleOp) :=
  .begin .chkpt (@ReadOp.reap sampleExternals 3 500) :: readSections .chkpt k

end ChkptThread

end NiovaRaft
