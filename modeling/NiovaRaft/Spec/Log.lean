import NiovaRaft.Model.Log

/-!
# What the log functions do

`Consistent` relates the cached headers of an instance to its stored entries.  Under it the
functions of the log are specified once: which state they leave, and in which states they may
die.  A process survives a handler that does not crash (`fuse = none`) as far as its assertions
hold, so each specification also says where only a crash ends it.

The rules are in the form that fits a goal `m.wp Q D s`: applying one leaves what `Q` and `D`
have to hold of.
-/

namespace NiovaRaft

variable {n : Nat}

/-! ## Headers and entries -/

/-- The header of the last entry, the null header for an empty log. -/
def lastHeader (l : List Entry) : EntryHeader := (l.getLast?.map Entry.header).getD EntryHeader.null

@[simp] theorem lastHeader_nil : lastHeader [] = EntryHeader.null := rfl

@[simp] theorem lastHeader_append (l : List Entry) (re : Entry) :
    lastHeader (l ++ [re]) = re.header := by
  simp [lastHeader]

/-- An entry as `raft_server_entry_init` leaves it at position `i`. -/
structure EntryOk (maxDataSize i : Nat) (re : Entry) : Prop where
  index : re.header.index = i
  dataSize : re.header.dataSize = re.header.entrySz.sum
  dataLength : re.data.length = re.header.dataSize
  numEntries : re.header.numEntries = re.header.entrySz.length
  narrow : re.header.numEntries < 256
  marker : re.header.leaderChangeMarker = true → re.header.dataSize = 0
  term : 0 ≤ re.header.term
  fits : re.header.dataSize ≤ maxDataSize

/-- Entries at their positions, with terms that never decrease. -/
structure EntriesOk (maxDataSize : Nat) (l : List Entry) : Prop where
  entry : ∀ i re, l[i]? = some re → EntryOk maxDataSize i re
  sorted : l.Pairwise fun a b => a.term ≤ b.term

namespace EntriesOk

variable {sz : Nat} {l : List Entry}

theorem take (h : EntriesOk sz l) (k : Nat) : EntriesOk sz (l.take k) where
  entry := by
    intro i re hre
    rw [List.getElem?_take] at hre
    split at hre
    · exact h.entry i re hre
    · cases hre
  sorted := h.sorted.sublist (List.take_sublist k l)

theorem lastHeader_index (h : EntriesOk sz l) : (lastHeader l).index = l.length - 1 := by
  unfold lastHeader
  rw [List.getLast?_eq_getElem?]
  cases hl : l[l.length - 1]? with
  | none =>
    have := List.getElem?_eq_none_iff.mp hl
    have : l.length = 0 := by omega
    simp [this]
  | some re =>
    have := (List.getElem?_eq_some_iff.mp hl).1
    simp only [Option.map_some, Option.getD_some]
    rw [(h.entry _ re hl).index]
    omega

theorem lastHeader_take_index (h : EntriesOk sz l) {k : Nat} (hk : k ≤ l.length) :
    (lastHeader (l.take k)).index = k - 1 := by
  rw [(h.take k).lastHeader_index, List.length_take, Nat.min_eq_left hk]

theorem lastHeader_term_le (h : EntriesOk sz l) {re : Entry} (hre : re ∈ l) :
    re.term ≤ (lastHeader l).term := by
  obtain ⟨i, hi, rfl⟩ := List.getElem_of_mem hre
  unfold lastHeader
  rw [List.getLast?_eq_getElem?, List.getElem?_eq_getElem (by omega)]
  simp only [Option.map_some, Option.getD_some]
  rcases Nat.lt_or_ge i (l.length - 1) with hlt | hge
  · exact List.pairwise_iff_getElem.mp h.sorted i (l.length - 1) hi (by omega) hlt
  · have : i = l.length - 1 := by omega
    subst this
    exact le_refl _

theorem lastHeader_term_nonneg (h : EntriesOk sz l) : 0 ≤ (lastHeader l).term := by
  unfold lastHeader
  rw [List.getLast?_eq_getElem?]
  cases hl : l[l.length - 1]? with
  | none => simp
  | some re => exact (h.entry _ re hl).term

/-- The header of entry `k` is the last one of the entries up to it. -/
theorem lastHeader_take_succ {k : Nat} {re : Entry} (hre : l[k]? = some re) :
    lastHeader (l.take (k + 1)) = re.header := by
  rw [List.take_add_one, hre, Option.toList_some, lastHeader_append]

end EntriesOk

/-! ## Consistent instances -/

/-- The cached headers are those of the newest entry and of the newest synced one. -/
structure Consistent (ri : RaftInstance n) : Prop where
  entries : EntriesOk ri.entryMaxDataSize ri.store.db.entries
  unsync : ri.newestUnsync = lastHeader ri.store.db.entries
  sync : ∃ m, m ≤ ri.store.db.entries.length ∧
    ri.newestSync = lastHeader (ri.store.db.entries.take m) ∧
    (ri.doesSynchronousWrites = true → m = ri.store.db.entries.length)
  reaped : (ri.store.db.reaped : Int) ≤ max 0 ri.lowestIdx
  applied : ri.lastApplied.syncedIdx ≤ ri.lastApplied.idx

namespace Consistent

variable {ri : RaftInstance n}

theorem unsync_index (h : Consistent ri) :
    ri.newestUnsync.index = ri.store.db.entries.length - 1 := by
  rw [h.unsync, h.entries.lastHeader_index]

theorem sync_index_le (h : Consistent ri) : ri.newestSync.index ≤ ri.newestUnsync.index := by
  obtain ⟨m, hm, heq, -⟩ := h.sync
  rw [h.unsync_index, heq, h.entries.lastHeader_take_index hm]
  omega

theorem sync_index_ge (h : Consistent ri) : -1 ≤ ri.newestSync.index := by
  obtain ⟨m, hm, heq, -⟩ := h.sync
  rw [heq, h.entries.lastHeader_take_index hm]
  omega

/-- With equal indexes the two headers are the same. -/
theorem sync_eq (h : Consistent ri) (hi : ri.newestUnsync.index ≤ ri.newestSync.index) :
    ri.newestSync = ri.newestUnsync := by
  obtain ⟨m, hm, heq, -⟩ := h.sync
  rw [h.unsync_index, heq, h.entries.lastHeader_take_index hm] at hi
  have : m = ri.store.db.entries.length := by omega
  rw [heq, h.unsync, this, List.take_length]

theorem sync_eq_of_synchronous (h : Consistent ri) (hs : ri.doesSynchronousWrites = true) :
    ri.newestSync = ri.newestUnsync := by
  obtain ⟨m, hm, heq, hsync⟩ := h.sync
  rw [heq, h.unsync, hsync hs, List.take_length]

theorem sync_term_le (h : Consistent ri) : ri.newestSync.term ≤ ri.newestUnsync.term := by
  obtain ⟨m, hm, heq, -⟩ := h.sync
  rcases Nat.eq_zero_or_pos m with rfl | hpos
  · rw [heq, h.unsync, List.take_zero, lastHeader_nil, EntryHeader.null_term]
    exact h.entries.lastHeader_term_nonneg
  · have hlt : m - 1 < ri.store.db.entries.length := by omega
    have hlast := EntriesOk.lastHeader_take_succ (List.getElem?_eq_getElem hlt)
    rw [Nat.sub_add_cancel hpos, ← heq] at hlast
    rw [hlast, h.unsync]
    exact h.entries.lastHeader_term_le (List.getElem_mem hlt)

end Consistent

namespace RaftServer

open Base Base.Handler

variable {α : Type} {s : Proc n} {D : Proc n → Prop}

/-! ## Primitives -/

@[simp] theorem wp_getRi {Q : RaftInstance n → Proc n → Prop} :
    getRi.wp Q D s ↔ Q s.ri s := Iff.rfl

@[simp] theorem wp_modifyRi {f : RaftInstance n → RaftInstance n} {Q : Unit → Proc n → Prop} :
    (modifyRi f).wp Q D s ↔ Q () { s with ri := f s.ri } := Iff.rfl

@[simp] theorem wp_observe {o : RaftInstance n → Obs n} {Q : Unit → Proc n → Prop} :
    (observe o).wp Q D s ↔ Q () { s with trace := s.trace ++ [o s.ri] } := Iff.rfl

@[simp] theorem wp_sendMsg_some {d : Fin n} {msg : RpcMsg n} {Q : Unit → Proc n → Prop} :
    (sendMsg (some d) msg).wp Q D s ↔ Q () { s with out := s.out ++ [(d, msg)] } := Iff.rfl

@[simp] theorem wp_sendMsg_none {msg : RpcMsg n} {Q : Unit → Proc n → Prop} :
    (sendMsg none msg).wp Q D s ↔ D s := Iff.rfl

/-- A write either happens or the process was killed before it. -/
theorem wp_durable {f : Store n → Store n} {Q : Unit → Proc n → Prop}
    (hD : s.fuse ≠ none → D s)
    (hQ : ∀ fuse, (s.fuse = none → fuse = none) →
      Q () { s with ri := { s.ri with store := f s.ri.store }, fuse := fuse }) :
    (durable f).wp Q D s := by
  simp only [durable, wp_bind, wp_gets, wp_fatalIf, wp_modify]
  refine ⟨fun h => hD (by simp [h]), fun _ => hQ _ ?_⟩
  intro h
  simp [h]

/-! ## Synced and unsynced entries -/

theorem wp_hasUnsyncedEntries {Q : Bool → Proc n → Prop} (hD : D s)
    (hQ : Q (decide (s.ri.newestSync ≠ s.ri.newestUnsync)) s) :
    hasUnsyncedEntries.wp Q D s := by
  simp only [hasUnsyncedEntries, wp_bind, wp_getRi, wp_fatalIf, wp_pure]
  exact ⟨fun _ => hD, fun _ => hQ⟩

/-- The sanity check on the two headers passes. -/
theorem wp_hasUnsyncedEntries_of_consistent {Q : Bool → Proc n → Prop} (hc : Consistent s.ri)
    (hQ : Q (decide (s.ri.newestSync ≠ s.ri.newestUnsync)) s) :
    hasUnsyncedEntries.wp Q D s := by
  simp only [hasUnsyncedEntries, wp_bind, wp_getRi, wp_fatalIf, wp_pure]
  refine ⟨?_, fun _ => hQ⟩
  rintro ⟨hne, h | h | h⟩
  · exact absurd hc.sync_index_le (not_le.mpr h)
  · exact absurd hc.sync_term_le (not_le.mpr h)
  · exact absurd (hc.sync_eq_of_synchronous h) hne

/-- With synchronous writes nothing is ever unsynced. -/
theorem wp_assertSynced {Q : Unit → Proc n → Prop} (hc : Consistent s.ri)
    (heq : s.ri.newestSync = s.ri.newestUnsync) (hQ : Q () s) :
    (hasUnsyncedEntries >>= fun unsynced => fatalIf (unsynced = true)).wp Q D s := by
  rw [wp_bind]
  apply wp_hasUnsyncedEntries_of_consistent hc
  rw [wp_fatalIf]
  simp [heq, hQ]

end RaftServer

/-- The instance after `raft_server_backend_sync`. -/
def RaftInstance.flushed (ri : RaftInstance n) : RaftInstance n :=
  { ri with
    store := if ri.doesSynchronousWrites then ri.store else ri.store.flush
    newestSync := if ri.doesSynchronousWrites then ri.newestSync else ri.newestUnsync
    lastApplied := if ri.doesSynchronousWrites then ri.lastApplied else
      { ri.lastApplied with syncedIdx := max ri.lastApplied.syncedIdx ri.lastApplied.idx } }

/-- With synchronous writes there is nothing to sync. -/
theorem RaftInstance.flushed_of_synchronous {ri : RaftInstance n}
    (h : ri.doesSynchronousWrites = true) : ri.flushed = ri := by
  simp [RaftInstance.flushed, h]

theorem RaftInstance.flushed_of_asynchronous {ri : RaftInstance n}
    (h : ri.doesSynchronousWrites = false) :
    ri.flushed = { ri with
      store := ri.store.flush
      newestSync := ri.newestUnsync
      lastApplied := { ri.lastApplied with
        syncedIdx := max ri.lastApplied.syncedIdx ri.lastApplied.idx } } := by
  simp [RaftInstance.flushed, h]

theorem Consistent.flushed {ri : RaftInstance n} (h : Consistent ri) :
    Consistent ri.flushed := by
  cases hs : ri.doesSynchronousWrites with
  | true =>
    rw [RaftInstance.flushed_of_synchronous hs]
    exact h
  | false =>
    rw [RaftInstance.flushed_of_asynchronous hs]
    refine ⟨h.entries, h.unsync, ⟨_, le_refl _, ?_, fun _ => rfl⟩, h.reaped, ?_⟩
    · simpa [Store.flush, Store.put] using h.unsync
    · exact max_le h.applied (le_refl _)

theorem Consistent.flushed_newestSync {ri : RaftInstance n} (h : Consistent ri) :
    ri.flushed.newestSync = ri.newestUnsync := by
  cases hs : ri.doesSynchronousWrites with
  | true =>
    rw [RaftInstance.flushed_of_synchronous hs]
    exact h.sync_eq_of_synchronous hs
  | false => rw [RaftInstance.flushed_of_asynchronous hs]

/-- The instance with a new log header, in memory and in the store. -/
def RaftInstance.withHeader (ri : RaftInstance n) (hdr : LogHeader n) : RaftInstance n :=
  { ri with logHdr := hdr, store := ri.store.put { ri.store.db with hdr := hdr } true }

theorem Consistent.withHeader {ri : RaftInstance n} (h : Consistent ri) (hdr : LogHeader n) :
    Consistent (ri.withHeader hdr) :=
  ⟨h.entries, h.unsync, h.sync, h.reaped, h.applied⟩

/-- The log of `ri'` is that of `ri`, except that a term `t` newer than its own was persisted,
and everything synced with it. -/
structure SameLog (ri ri' : RaftInstance n) (t : Int) : Prop where
  entries : ri'.store.db.entries = ri.store.db.entries
  reaped : ri'.store.db.reaped = ri.store.db.reaped
  unsync : ri'.newestUnsync = ri.newestUnsync
  sync : ri'.newestSync = if ri.logHdr.term < t then ri.newestUnsync else ri.newestSync
  commit : ri'.commitIdx = ri.commitIdx
  lowest : ri'.lowestIdx = ri.lowestIdx
  applied : ri'.lastApplied.idx = ri.lastApplied.idx

theorem SameLog.refl {ri : RaftInstance n} {t : Int} (ht : ¬ ri.logHdr.term < t) :
    SameLog ri ri t :=
  ⟨rfl, rfl, rfl, by rw [if_neg ht], rfl, rfl, rfl⟩

theorem SameLog.of_header {ri : RaftInstance n} (hc : Consistent ri) {h : LogHeader n} {t : Int}
    (ht : ri.logHdr.term < t) : SameLog ri (ri.withHeader h).flushed t where
  entries := by
    unfold RaftInstance.flushed RaftInstance.withHeader
    dsimp only
    split <;> rfl
  reaped := by
    unfold RaftInstance.flushed RaftInstance.withHeader
    dsimp only
    split <;> rfl
  unsync := rfl
  sync := by
    rw [(hc.withHeader h).flushed_newestSync, if_pos ht]
    rfl
  commit := rfl
  lowest := rfl
  applied := by
    unfold RaftInstance.flushed
    dsimp only
    split <;> rfl

/-- The instance after an entry was stored at the end of the log. -/
def RaftInstance.withEntry (ri : RaftInstance n) (re : Entry) : RaftInstance n :=
  { ri with
    store := ri.store.put { ri.store.db with entries := ri.store.db.entries ++ [re] }
      ri.doesSynchronousWrites
    newestSync := if ri.doesSynchronousWrites then re.header else ri.newestSync
    newestUnsync := re.header }

theorem Consistent.withEntry {ri : RaftInstance n} (h : Consistent ri) {re : Entry}
    (hre : EntryOk ri.entryMaxDataSize ri.store.db.entries.length re)
    (hterm : ri.newestUnsync.term ≤ re.term) : Consistent (ri.withEntry re) where
  entries := by
    constructor
    · intro i re' hre'
      rcases Nat.lt_or_ge i ri.store.db.entries.length with hi | hi
      · exact h.entries.entry i re' (by rwa [← List.getElem?_append_left hi])
      · change (ri.store.db.entries ++ [re])[i]? = some re' at hre'
        rw [List.getElem?_append_right hi] at hre'
        have hi' : i = ri.store.db.entries.length := by
          have := (List.getElem?_eq_some_iff.mp hre').1
          rw [List.length_singleton] at this
          omega
        subst hi'
        rw [Nat.sub_self] at hre'
        obtain rfl : re = re' := by simpa using hre'
        exact hre
    · change (ri.store.db.entries ++ [re]).Pairwise _
      rw [List.pairwise_append]
      refine ⟨h.entries.sorted, List.pairwise_singleton _ _, ?_⟩
      intro a ha b hb
      obtain rfl := List.mem_singleton.mp hb
      refine le_trans (h.entries.lastHeader_term_le ha) ?_
      rw [← h.unsync]
      exact hterm
  unsync := by
    change re.header = lastHeader (ri.store.db.entries ++ [re])
    rw [lastHeader_append]
  sync := by
    obtain ⟨m, hm, heq, hs⟩ := h.sync
    change ∃ m, m ≤ (ri.store.db.entries ++ [re]).length ∧
      (if ri.doesSynchronousWrites then re.header else ri.newestSync) =
        lastHeader ((ri.store.db.entries ++ [re]).take m) ∧
      (ri.doesSynchronousWrites = true → m = (ri.store.db.entries ++ [re]).length)
    cases hsync : ri.doesSynchronousWrites with
    | true =>
      exact ⟨_, le_refl _, by rw [List.take_length, lastHeader_append]; rfl, fun _ => rfl⟩
    | false =>
      refine ⟨m, by rw [List.length_append]; omega, ?_, by simp⟩
      rw [List.take_append_of_le_length hm]
      simpa using heq
  reaped := h.reaped
  applied := h.applied

theorem Db.write_eq {db : Db n} {re : Entry} (h : re.header.index = db.entries.length) :
    db.write re = { db with entries := db.entries ++ [re] } := by
  unfold Db.write
  rw [h]
  simp

/-- An entry is stored at its index, and the others stay where they are. -/
theorem Db.getElem?_write {db : Db n} {re : Entry} {i : Nat}
    (hle : re.header.index.toNat ≤ db.entries.length) :
    (db.write re).entries[i]? = if i = re.header.index.toNat then some re else db.entries[i]? := by
  simp only [Db.write]
  split
  · next hlt =>
    by_cases hi : i = re.header.index.toNat
    · rw [if_pos hi, hi, List.getElem?_set_self hlt]
    · rw [if_neg hi, List.getElem?_set_ne (Ne.symm hi)]
  · next hge =>
    have hlen : re.header.index.toNat = db.entries.length := by omega
    rw [hlen]
    by_cases hi : i = db.entries.length
    · rw [if_pos hi, hi, List.getElem?_concat_length]
    · rw [if_neg hi]
      rcases Nat.lt_or_ge i db.entries.length with hlt | hge
      · exact List.getElem?_append_left hlt
      · rw [List.getElem?_eq_none hge, List.getElem?_eq_none]
        rw [List.length_append, List.length_singleton]
        omega

theorem Db.length_write (db : Db n) (re : Entry) : (db.write re).entries.length =
    if re.header.index.toNat < db.entries.length then db.entries.length
    else db.entries.length + 1 := by
  simp only [Db.write]
  split
  · exact List.length_set
  · rw [List.length_append, List.length_singleton]

namespace RaftServer

open Base Base.Handler

variable {α : Type} {s : Proc n} {D : Proc n → Prop}

/-! ## Syncing -/

/-- The synced header catches up with the newest one. -/
theorem updateHdr_newest {ri : RaftInstance n} (hc : Consistent ri) :
    (if ri.newestUnsync.index < 0 then ri.newestSync
      else updateHdr false ri.newestUnsync ri.newestSync) = ri.newestUnsync := by
  have hge := hc.sync_index_ge
  split
  · exact hc.sync_eq (by omega)
  · unfold updateHdr
    split
    · rfl
    · rename_i h
      exact hc.sync_eq (not_lt.mp fun hlt => h (.inr hlt))

theorem wp_backendSync {Q : Unit → Proc n → Prop} (hc : Consistent s.ri)
    (hD : s.fuse ≠ none → D s)
    (hQ : ∀ fuse, (s.fuse = none → fuse = none) →
      Q () { s with ri := s.ri.flushed, fuse := fuse }) :
    backendSync.wp Q D s := by
  unfold backendSync
  rw [wp_bind, wp_getRi, wp_ite]
  constructor
  · intro hs
    have hstay := hQ s.fuse id
    rw [RaftInstance.flushed_of_synchronous hs] at hstay
    exact wp_assertSynced hc (hc.sync_eq_of_synchronous hs) hstay
  · intro hs
    simp only [wp_bind, wp_assert]
    refine ⟨fun _ => ?_, fun h => absurd hc.sync_index_le h⟩
    apply wp_durable hD
    intro fuse hfuse
    have hfin := hQ fuse hfuse
    rw [RaftInstance.flushed_of_asynchronous (eq_false_of_ne_true hs)] at hfin
    have hup := updateHdr_newest hc
    rw [updateNewestEntryHdr, wp_ite]
    constructor
    · intro hneg
      rw [if_pos hneg] at hup
      simp only [wp_pure]
      refine ⟨fun _ => ?_, fun h => absurd hc.applied h⟩
      rw [wp_modifyRi, hup]
      exact hfin
    · intro hneg
      rw [if_neg hneg] at hup
      simp only [wp_bind, wp_getRi, wp_whenever, wp_assert, wp_modifyRi]
      refine ⟨fun _ => ⟨fun _ => ?_, fun h => absurd (.inl (eq_false_of_ne_true hs)) h⟩,
        fun h => absurd (by simp) h⟩
      refine ⟨fun h => absurd rfl h, fun _ => ⟨fun _ => ?_, fun h => absurd hc.applied h⟩⟩
      rw [hup]
      exact hfin

/-- After `raft_server_backend_sync_pending` the two headers are the same. -/
theorem wp_backendSyncPending {Q : Unit → Proc n → Prop} (hc : Consistent s.ri)
    (hD : s.fuse ≠ none → D s)
    (hsame : s.ri.newestSync = s.ri.newestUnsync → Q () s)
    (hQ : ∀ fuse, (s.fuse = none → fuse = none) →
      Q () { s with ri := s.ri.flushed, fuse := fuse }) :
    backendSyncPending.wp Q D s := by
  rw [backendSyncPending, wp_bind]
  apply wp_hasUnsyncedEntries_of_consistent hc
  rw [wp_whenever]
  refine ⟨fun _ => wp_backendSync hc hD hQ, fun h => hsame ?_⟩
  simpa using h

/-- What a sync leaves as it is in any instance, and that the newest entry is synced then. -/
structure SyncedFrom (s s' : Proc n) : Prop where
  out : s'.out = s.out
  self : s'.ri.self = s.ri.self
  state : s'.ri.state = s.ri.state
  logHdr : s'.ri.logHdr = s.ri.logHdr
  hdr : s'.ri.store.db.hdr = s.ri.store.db.hdr
  commitIdx : s'.ri.commitIdx = s.ri.commitIdx
  applied : s'.ri.lastApplied.idx = s.ri.lastApplied.idx
  newest : s'.ri.newestUnsync.index ≤ s'.ri.newestSync.index ∨ s'.ri.newestUnsync.index < 0

theorem wp_backendSync_syncedFrom :
    backendSync.wp (fun _ s' => SyncedFrom s s') (fun d => d.out = s.out) s := by
  simp only [backendSync, wp_bind, wp_getRi, wp_ite]
  refine ⟨fun _ => wp_hasUnsyncedEntries rfl ?_, fun _ => ?_⟩
  · rw [wp_fatalIf]
    refine ⟨fun _ => rfl, fun hsynced => ⟨rfl, rfl, rfl, rfl, rfl, rfl, rfl, .inl ?_⟩⟩
    have heq : s.ri.newestSync = s.ri.newestUnsync := by simpa using hsynced
    rw [heq]
  rw [wp_assert]
  refine ⟨fun _ => wp_durable (fun _ => rfl) fun fuse _ => ?_, fun _ => rfl⟩
  rw [updateNewestEntryHdr, wp_ite]
  simp only [wp_pure, wp_assert, wp_modifyRi, wp_bind, wp_getRi, wp_whenever]
  refine ⟨fun hneg => ⟨fun _ => ⟨rfl, rfl, rfl, rfl, rfl, rfl, rfl, .inr hneg⟩, fun _ => trivial⟩,
    fun _ => ?_⟩
  refine ⟨fun _ => ⟨fun _ => ⟨fun h => absurd rfl h, fun _ => ⟨fun _ => ?_, fun _ => trivial⟩⟩,
    fun _ => trivial⟩, fun h => absurd (by simp) h⟩
  refine ⟨rfl, rfl, rfl, rfl, rfl, rfl, rfl, .inl ?_⟩
  simp only [updateHdr]
  split
  · exact le_refl _
  · omega

/-! ## The log header -/

/-- The header that `raft_server_log_header_write_prep` leaves in memory. -/
def nextHeader (ri : RaftInstance n) (candidate : Option (Fin n)) (candidateTerm : Int) :
    LogHeader n :=
  ⟨candidateTerm, candidate, ri.logHdr.seqno + 1⟩

/-- A newer term is persisted.  A process that dies has either header on disk. -/
theorem wp_logHeaderWrite {candidate : Option (Fin n)} {term : Int} {Q : Unit → Proc n → Prop}
    (hc : Consistent s.ri) (ht : s.ri.logHdr.term < term)
    (hD : s.fuse ≠ none → D { s with ri := { s.ri with logHdr := nextHeader s.ri candidate term } })
    (hD' : s.fuse ≠ none → ∀ fuse, D { s with
      ri := s.ri.withHeader (nextHeader s.ri candidate term), fuse := fuse })
    (hQ : ∀ fuse, (s.fuse = none → fuse = none) → Q () { s with
      ri := (s.ri.withHeader (nextHeader s.ri candidate term)).flushed, fuse := fuse }) :
    (logHeaderWrite candidate term).wp Q D s := by
  simp only [logHeaderWrite, logHeaderWritePrep, headerWrite, wp_bind, wp_getRi, wp_fatalIf,
    wp_modifyRi]
  refine ⟨fun h => absurd ht (by omega), fun _ => ?_⟩
  apply wp_durable hD
  intro fuse hfuse
  refine wp_backendSync ?_ (fun h => hD' (fun h' => h (hfuse h')) fuse) (fun fuse' hfuse' => ?_)
  · exact hc.withHeader _
  · exact hQ fuse' fun h => hfuse' (hfuse h)

/-- What a header write leaves as it is in any instance. -/
structure HeaderWritten (candidate : Option (Fin n)) (newTerm : Int) (s s' : Proc n) : Prop where
  out : s'.out = s.out
  self : s'.ri.self = s.ri.self
  state : s'.ri.state = s.ri.state
  term : s'.ri.logHdr.term = newTerm
  hdrTerm : s'.ri.store.db.hdr.term = newTerm
  hdrVotedFor : s'.ri.store.db.hdr.votedFor = candidate

theorem wp_logHeaderWrite_headerWritten {candidate : Option (Fin n)} {term : Int} :
    (logHeaderWrite candidate term).wp (fun _ s' => HeaderWritten candidate term s s')
      (fun d => d.out = s.out) s := by
  simp only [logHeaderWrite, logHeaderWritePrep, headerWrite, wp_bind, wp_getRi, wp_fatalIf,
    wp_modifyRi]
  refine ⟨fun _ => trivial, fun _ => wp_durable (fun _ => rfl) fun fuse _ => ?_⟩
  refine wp_mono wp_backendSync_syncedFrom (fun _ s' h => ?_) fun _ => id
  exact ⟨h.out, h.self, h.state, by rw [h.logHdr], by rw [h.hdr]; rfl, by rw [h.hdr]; rfl⟩

/-! ## Entries -/

section Write

variable [Externals]

theorem entryOf_ok {ri : RaftInstance n} {i : Nat} {term : Int} {data : List UInt8}
    {sizes : List Nat} {marker : Bool} (hterm : 0 ≤ term) (hlen : sizes.sum ≤ data.length)
    (hmax : sizes.sum ≤ ri.entryMaxDataSize) (hnum : sizes.length < 256)
    (hmark : marker = true → sizes.sum = 0) :
    EntryOk ri.entryMaxDataSize i (entryOf ri i term data sizes marker) where
  index := rfl
  dataSize := by
    simp only [entryOf]
    split
    · rename_i h
      simp [h]
    · rfl
  dataLength := by
    simp only [entryOf, List.length_take]
    omega
  numEntries := by
    simp only [entryOf]
    split <;> simp
  narrow := hnum
  marker := hmark
  term := hterm
  fits := hmax

omit [Externals] in
theorem updateHdr_of_gt {reh tgt : EntryHeader} (h : tgt.index < reh.index) :
    updateHdr false reh tgt = reh := by
  unfold updateHdr
  rw [if_pos (.inr h)]

omit [Externals] in
/-- Storing the entry after the newest one, and caching its header. -/
theorem wp_storeEntry {re : Entry} {Q : Unit → Proc n → Prop} (hc : Consistent s.ri)
    (hD : s.fuse ≠ none → D s)
    (hidx : re.header.index = s.ri.store.db.entries.length)
    (hQ : ∀ fuse, (s.fuse = none → fuse = none) →
      Q () { s with ri := s.ri.withEntry re, fuse := fuse }) :
    (do
      entryWriteByStore re
      updateNewestEntryHdr re.header
        (if s.ri.doesSynchronousWrites then .all else .unsync) false
      whenever (s.ri.doesSynchronousWrites = true) do
        let unsynced ← hasUnsyncedEntries
        fatalIf (unsynced = true)).wp Q D s := by
  have hun : s.ri.newestUnsync.index < re.header.index := by
    rw [hidx, hc.unsync_index]
    omega
  have hsy : s.ri.newestSync.index < re.header.index := lt_of_le_of_lt hc.sync_index_le hun
  have hneg : ¬ re.header.index < 0 := by omega
  rw [wp_bind, entryWriteByStore, wp_bind, wp_getRi]
  apply wp_durable hD
  intro fuse hfuse
  have hfin := hQ fuse hfuse
  unfold RaftInstance.withEntry at hfin
  rw [wp_bind, updateNewestEntryHdr, if_neg hneg, Db.write_eq hidx]
  simp only [wp_bind, wp_getRi, wp_whenever, wp_assert, wp_modifyRi]
  cases hs : s.ri.doesSynchronousWrites with
  | true =>
    rw [hs] at hfin
    refine ⟨fun _ => ⟨fun _ => ?_, fun h => absurd (.inr (.inr hsy)) h⟩, fun h => absurd (by simp) h⟩
    refine ⟨fun _ => ⟨fun _ => ?_, fun h => absurd (.inr (.inr hun)) h⟩, fun h => absurd (by simp) h⟩
    refine ⟨fun _ => ?_, fun h => absurd rfl h⟩
    simp only [hasUnsyncedEntries, wp_bind, wp_getRi, wp_fatalIf, wp_pure, updateHdr_of_gt hsy,
      updateHdr_of_gt hun]
    exact ⟨fun h => absurd rfl h.1, fun _ => ⟨fun h => by simp at h, fun _ => hfin⟩⟩
  | false =>
    rw [hs] at hfin
    refine ⟨fun h => absurd h (by simp), fun _ => ?_⟩
    refine ⟨fun _ => ⟨fun _ => ?_, fun h => absurd (.inl hs) h⟩, fun h => absurd (by simp) h⟩
    rw [updateHdr_of_gt hun]
    exact ⟨fun h => absurd h (by simp), fun _ => hfin⟩

/-- The next entry is stored.  Every death is before the write: of an entry that does not fit into
the log, or of a process that is killed. -/
theorem wp_writeNextEntry {term : Int} {data : List UInt8} {sizes : List Nat} {marker : Bool}
    {Q : Unit → Proc n → Prop} (hc : Consistent s.ri)
    (hD : (s.ri.newestUnsync.term ≤ term → sizes.sum ≤ s.ri.entryMaxDataSize →
      (marker = true ∨ sizes.length ≠ 0) → s.fuse ≠ none) → D s)
    (hQ : ∀ fuse, s.ri.newestUnsync.term ≤ term → sizes.sum ≤ s.ri.entryMaxDataSize →
      (marker = true ∨ sizes.length ≠ 0) → (s.fuse = none → fuse = none) →
      Q () { s with
        ri := s.ri.withEntry (entryOf s.ri s.ri.store.db.entries.length term data sizes marker)
        fuse := fuse }) :
    (writeNextEntry term data sizes marker).wp Q D s := by
  have hidx : s.ri.newestUnsync.index + 1 = s.ri.store.db.entries.length := by
    rw [hc.unsync_index]
    omega
  simp only [writeNextEntry, entryWrite, entryInit, wp_bind, wp_getRi, wp_assert, wp_fatalIf,
    wp_pure, hidx]
  refine ⟨fun hterm => ⟨fun h => absurd h (not_lt.mpr (Int.natCast_nonneg _)),
    fun _ => ⟨fun h => hD fun _ hmax => absurd hmax (not_le.mpr h), fun hfit => ?_⟩⟩,
    fun h => hD fun hterm => absurd hterm h⟩
  refine ⟨fun hsz => ⟨fun _ => ⟨fun hmax => ?_, fun h => hD fun _ hmax => absurd hmax h⟩,
    fun h => absurd (Int.natCast_nonneg _) h⟩, fun h => hD fun _ _ hsz => absurd hsz h⟩
  have hneg : ¬ (entryOf s.ri s.ri.store.db.entries.length term data sizes marker).header.index < 0 :=
    not_lt.mpr (Int.natCast_nonneg _)
  simp only [entryNextEntryIsValid, if_neg hneg, wp_bind, wp_getRi, wp_fatalIf, wp_pure]
  refine ⟨fun h => ?_, fun _ => ⟨fun _ => ?_, fun h => ?_⟩⟩
  · exact absurd (by rw [hc.sync_eq_of_synchronous h.1]) h.2
  · simpa only [wp_bind] using
      wp_storeEntry hc (fun hf => hD fun _ _ _ => hf) rfl
        fun fuse hfuse => hQ fuse hterm hmax hsz hfuse
  · exact absurd (decide_eq_true ⟨hidx.symm, hterm⟩) h

end Write

/-! ## Truncation -/

/-- The entries past the newest synced one are removed. -/
theorem wp_logTruncate {Q : Unit → Proc n → Prop} {m : Nat} (hm : s.ri.newestSync.index = m - 1)
    (hD : s.fuse ≠ none → D s)
    (hQ : ∀ fuse, (s.fuse = none → fuse = none) → Q () { s with
      ri := { s.ri with store := s.ri.store.put (s.ri.store.db.truncate m) true }
      fuse := fuse }) :
    logTruncate.wp Q D s := by
  have hcut : s.ri.currentIdx .sync + 1 = m := by
    change s.ri.newestSync.index + 1 = m
    omega
  simp only [logTruncate, wp_bind, wp_getRi, wp_assert, hcut, Int.toNat_natCast]
  exact ⟨fun _ => wp_durable hD hQ, fun h => absurd (Int.natCast_nonneg m) h⟩

/-! ## Reads -/

/-- Why a read of the entry at `idx` fails. -/
inductive ReadFails (ri : RaftInstance n) (idx : Int) : Errno → Prop
  | negative (h : idx < 0) : ReadFails ri idx .EINVAL
  | compacted (h0 : 0 ≤ idx) (h : idx < ri.lowestIdx) : ReadFails ri idx .ERANGE
  | damaged (rc : Errno) (re : Entry) (h0 : 0 ≤ idx)
      (hre : ri.store.db.entries[idx.toNat]? = some re)
      (h : entryValidate ri re.header idx = .error rc) : ReadFails ri idx rc

theorem entryValidate_ne_ERANGE {ri : RaftInstance n} {rh : EntryHeader} {idx : Int} {rc : Errno}
    (h : entryValidate ri rh idx = .error rc) : rc ≠ .ERANGE := by
  unfold entryValidate at h
  split at h
  · cases h
    simp
  · split at h
    · cases h
      simp
    · cases h

theorem ReadFails.lt_lowest {ri : RaftInstance n} {idx : Int} (h : ReadFails ri idx .ERANGE) :
    idx < ri.lowestIdx := by
  generalize hrc : Errno.ERANGE = rc at h
  cases h with
  | negative h => cases hrc
  | compacted h0 h => exact h
  | damaged _ re h0 hre hval => exact absurd hrc.symm (entryValidate_ne_ERANGE hval)

/-- A read returns the stored entry of that index, fails, or kills the process. -/
theorem wp_entryHeaderReadByStore_validated {idx : Int}
    {Q : Except Errno EntryHeader → Proc n → Prop} (hD : D s)
    (herr : ∀ rc, ReadFails s.ri idx rc → Q (.error rc) s)
    (hok : ∀ re, 0 ≤ idx → s.ri.lowestIdx ≤ idx → s.ri.store.db.entries[idx.toNat]? = some re →
      re.header.index = idx → Q (.ok re.header) s) :
    (entryHeaderReadByStore idx).wp Q D s := by
  rw [entryHeaderReadByStore, wp_ite]
  refine ⟨fun h => herr _ (.negative h), fun hidx => ?_⟩
  have h0 : 0 ≤ idx := not_lt.mp hidx
  simp only [entryReadByStoreCommon, wp_bind, wp_getRi, wp_assert, wp_ite, wp_pure]
  refine ⟨fun _ => ⟨fun _ => ⟨fun h => herr _ (.compacted h0 h), fun hlow => ?_⟩, fun _ => hD⟩,
    fun _ => hD⟩
  cases hre : s.ri.store.db.read idx.toNat with
  | none => exact hD
  | some re =>
    have hget : s.ri.store.db.entries[idx.toNat]? = some re := by
      unfold Db.read at hre
      split at hre
      · exact hre
      · cases hre
    simp only [wp_pure, Except.bind]
    cases hval : entryValidate s.ri re.header idx with
    | error rc => exact herr rc (.damaged rc re h0 hget hval)
    | ok reh =>
      unfold entryValidate at hval
      split at hval
      · cases hval
      · split at hval
        · cases hval
        · rename_i hindex
          cases hval
          exact hok re h0 (not_lt.mp hlow) hget (not_not.mp hindex)

/-- A read returns a stored entry that was not compacted, fails, or kills the process. -/
theorem wp_entryHeaderReadByStore {idx : Int} {Q : Except Errno EntryHeader → Proc n → Prop}
    (hD : D s) (herr : ∀ rc, Q (.error rc) s)
    (hok : ∀ re, 0 ≤ idx → s.ri.lowestIdx ≤ idx → s.ri.store.db.entries[idx.toNat]? = some re →
      Q (.ok re.header) s) :
    (entryHeaderReadByStore idx).wp Q D s :=
  wp_entryHeaderReadByStore_validated hD (fun rc _ => herr rc)
    fun re h0 hlow hre _ => hok re h0 hlow hre

/-- Entries as they were stored pass their validation. -/
theorem entryValidate_ok {ri : RaftInstance n} {i : Nat} {re : Entry}
    (h : EntryOk ri.entryMaxDataSize i re) : entryValidate ri re.header i = .ok re.header := by
  rw [entryValidate, if_neg (not_lt.mpr h.fits), if_neg (by rw [h.index]; simp)]

/-- Where the entries are right, only a compacted entry makes a read fail. -/
theorem ReadFails.compacted_of_consistent {ri : RaftInstance n} {idx : Int} {rc : Errno}
    (h : ReadFails ri idx rc) (hc : Consistent ri) : idx < 0 ∨ idx < ri.lowestIdx := by
  cases h with
  | negative h => exact .inl h
  | compacted _ h => exact .inr h
  | damaged _ re h0 hre hval =>
    have hok := entryValidate_ok (hc.entries.entry _ re hre)
    rw [Int.toNat_of_nonneg h0, hval] at hok
    cases hok

theorem wp_entryHeaderReadByStore_of_entries {idx : Int}
    {Q : Except Errno EntryHeader → Proc n → Prop} (hc : Consistent s.ri) (hD : D s)
    (herr : ∀ rc, idx < 0 ∨ idx < s.ri.lowestIdx → Q (.error rc) s)
    (hok : ∀ re, 0 ≤ idx → s.ri.lowestIdx ≤ idx → s.ri.store.db.entries[idx.toNat]? = some re →
      Q (.ok re.header) s) :
    (entryHeaderReadByStore idx).wp Q D s :=
  wp_entryHeaderReadByStore_validated hD (fun rc h => herr rc (h.compacted_of_consistent hc))
    fun re h0 hlow hre _ => hok re h0 hlow hre

/-- A read of an entry that a consistent instance holds succeeds. -/
theorem wp_entryHeaderReadByStore_of_consistent {idx : Nat}
    {Q : Except Errno EntryHeader → Proc n → Prop} (hc : Consistent s.ri) {re : Entry}
    (hlow : s.ri.lowestIdx ≤ idx) (hre : s.ri.store.db.entries[idx]? = some re)
    (hQ : Q (.ok re.header) s) : (entryHeaderReadByStore idx).wp Q D s := by
  have hidx : (idx : Int) ≤ s.ri.currentIdx .unsync := by
    change (idx : Int) ≤ s.ri.newestUnsync.index
    have := (List.getElem?_eq_some_iff.mp hre).1
    rw [hc.unsync_index]
    omega
  have hread : s.ri.store.db.read idx = some re := by
    have := hc.reaped
    unfold Db.read
    rw [if_pos (by omega), hre]
  have hok := hc.entries.entry idx re hre
  simp only [entryHeaderReadByStore, entryReadByStoreCommon, wp_ite, wp_bind, wp_getRi, wp_assert,
    wp_pure, Int.toNat_natCast, hread]
  refine ⟨fun h => absurd h (by omega), fun _ => ⟨fun _ => ⟨fun _ => ?_, ?_⟩, ?_⟩⟩
  · refine ⟨fun h => absurd h (by omega), fun _ => ?_⟩
    rw [Except.bind, entryValidate_ok hok]
    exact hQ
  · exact fun h => absurd (.inl hidx) h
  · exact fun h => absurd (Int.natCast_nonneg idx) h

section Read

variable [Externals]

/-- The data of an entry is read as a whole, or the read fails.  A compacted entry has no error code
of its own. -/
theorem wp_entryRead {idx : Int} {len : Nat} {Q : Except Errno (List UInt8) → Proc n → Prop}
    (hD : D s) (herr : ∀ rc, rc ≠ .ERANGE → Q (.error rc) s)
    (hok : ∀ re, 0 ≤ idx → s.ri.store.db.entries[idx.toNat]? = some re →
      Q (.ok (re.data.take len)) s) :
    (entryRead idx len).wp Q D s := by
  simp only [entryRead, entryReadByStoreCommon, wp_bind, wp_getRi, wp_assert, wp_ite, wp_pure]
  refine ⟨fun hidx => ⟨fun _ => ⟨fun _ => herr _ (by simp), fun hlow => ?_⟩, fun _ => hD⟩,
    fun _ => hD⟩
  cases hre : s.ri.store.db.read idx.toNat with
  | none => exact hD
  | some re =>
    have hget : s.ri.store.db.entries[idx.toNat]? = some re := by
      unfold Db.read at hre
      split at hre
      · exact hre
      · cases hre
    simp only [wp_pure, bind, Except.bind]
    cases hval : entryValidate s.ri re.header idx with
    | error rc => exact herr rc (entryValidate_ne_ERANGE hval)
    | ok reh =>
      simp only
      split
      · exact herr _ (by simp)
      · by_cases hcrc : entryCalcCrc re = re.header.crc
        · rw [entryCheckCrc, if_pos hcrc]
          exact hok re hidx hget
        · rw [entryCheckCrc, if_neg hcrc]
          exact herr _ (by simp)

/-- A read of the data of an entry that a consistent instance holds succeeds, if its checksum is
right. -/
theorem wp_entryRead_of_consistent {idx : Nat} {Q : Except Errno (List UInt8) → Proc n → Prop}
    (hc : Consistent s.ri) {re : Entry} (hlow : s.ri.lowestIdx ≤ idx)
    (hre : s.ri.store.db.entries[idx]? = some re) (hcrc : entryCalcCrc re = re.header.crc)
    (hQ : Q (.ok (re.data.take re.header.dataSize)) s) :
    (entryRead idx re.header.dataSize).wp Q D s := by
  have hidx : (idx : Int) ≤ s.ri.currentIdx .unsync := by
    change (idx : Int) ≤ s.ri.newestUnsync.index
    have := (List.getElem?_eq_some_iff.mp hre).1
    rw [hc.unsync_index]
    omega
  have hread : s.ri.store.db.read idx = some re := by
    have := hc.reaped
    unfold Db.read
    rw [if_pos (by omega), hre]
  have hok := entryValidate_ok (hc.entries.entry idx re hre)
  simp only [entryRead, entryReadByStoreCommon, wp_bind, wp_getRi, wp_assert, wp_ite, wp_pure,
    Int.toNat_natCast, hread]
  refine ⟨fun _ => ⟨fun _ => ⟨fun h => absurd h (by omega), fun _ => ?_⟩, ?_⟩, ?_⟩
  · simp only [hok, entryCheckCrc, hcrc, bind, Except.bind, lt_self_iff_false, if_false, if_true]
    exact hQ
  · exact fun h => absurd (.inl hidx) h
  · exact fun h => absurd (Int.natCast_nonneg idx) h

end Read

end RaftServer

end NiovaRaft
