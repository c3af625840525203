import NiovaRaft.Refinement.Coupling
import NiovaRaft.Spec.AppendEntries

/-!
# The log operations keep the coupling

One lemma for each way a server changes its log or its log header.  Each takes the world
before and the peer as it is afterwards, so that the steps of the world can be chosen where the
operation is used.
-/

namespace NiovaRaft

namespace Refinement

open Base.Replication

variable {n : Nat} {w w' : ClusterWorld n} {p : Fin n} {ri : RaftInstance n}

/-! ## Contents that are flushed -/

section Kept

variable {opts : Options} {db d : Db n} {m m' : Nat}

/-- The contents themselves are always kept. -/
theorem Kept.self (h : Kept opts db m d) (hself : d = db) (hm : m ≤ m')
    (hlen : m' ≤ db.entries.length) : Kept opts db m' db := by
  subst hself
  exact ⟨rfl, rfl, List.prefix_refl _, hlen, lt_of_lt_of_le h.applied (by exact_mod_cast hm),
    h.appliedSynced, h.reapedApplied⟩

/-- The header of both may be replaced. -/
theorem Kept.withHeader (h : Kept opts db m db) (hdr : LogHeader n) :
    Kept opts { db with hdr := hdr } m { db with hdr := hdr } :=
  ⟨rfl, rfl, List.prefix_refl _, h.synced, h.applied, h.appliedSynced, h.reapedApplied⟩

/-- An entry may be appended to the newest contents. -/
theorem Kept.withEntry (h : Kept opts db m d) (re : Entry) :
    Kept opts { db with entries := db.entries ++ [re] } m d :=
  ⟨h.hdr, h.reaped, h.entries.trans (List.prefix_append _ _), h.synced, h.applied,
    h.appliedSynced, h.reapedApplied⟩

end Kept

theorem StoreOk.kept_self {opts : Options} {st : Store n} (h : StoreOk w p opts st) :
    Kept opts st.db (w.peer p).synced st.db :=
  h.kept _ h.mem

/-- Once everything is flushed, any number of entries counts as synced. -/
theorem StoreOk.flush {opts : Options} {st : Store n} (h : StoreOk w p opts st)
    (hp : w'.peer p = { w.peer p with synced := (w.peer p).log.length }) :
    StoreOk w' p opts st.flush where
  log := by
    rw [hp]
    exact h.log
  entries := h.entries
  term := by
    rw [hp]
    exact h.term
  nonneg := by
    rw [hp]
    exact h.nonneg
  mem := by simp [Store.flush, Store.put]
  kept := by
    intro d hd
    obtain rfl : d = st.db := by simpa [Store.flush, Store.put] using hd
    rw [hp]
    exact h.kept_self.self rfl (by rw [h.length]; exact h.synced_le) (le_of_eq h.length)

/-- `raft_server_backend_sync`. -/
theorem Stored.flushed (h : Stored w p ri)
    (hp : w'.peer p = { w.peer p with synced := (w.peer p).log.length }) :
    Stored w' p ri.flushed := by
  have hle : ((w.peer p).synced : Int) ≤ (w.peer p).log.length := by
    rw [h.store.length]
    exact_mod_cast h.store.synced_le
  cases hs : ri.doesSynchronousWrites with
  | true =>
    -- nothing happens, and everything was synced before
    have hsame : w'.peer p = w.peer p := by
      rw [hp, ← h.synced_eq (h.cons.sync_eq_of_synchronous hs)]
    rw [RaftInstance.flushed_of_synchronous hs]
    exact h.congr hsame
  | false =>
    have hcons := h.cons.flushed
    rw [RaftInstance.flushed_of_asynchronous hs] at hcons ⊢
    refine ⟨h.self, h.running, h.store.flush hp, hcons, ?_, h.hdr, ?_, ?_, ?_⟩
    · rw [hp, h.store.length]
      change ri.newestUnsync = lastHeader (ri.store.db.entries.take ri.store.db.entries.length)
      rw [List.take_length, h.cons.unsync]
    · rw [hp]
      exact h.commit
    · rw [hp]
      exact lt_of_lt_of_le h.applied hle
    · intro hper
      obtain ⟨h1, -⟩ := h.persisted hper
      refine ⟨h1, fun d hd => ?_⟩
      obtain rfl : d = ri.store.db := by simpa [Store.flush, Store.put] using hd
      refine ⟨?_, le_of_eq h1⟩
      change max ri.lastApplied.syncedIdx ri.lastApplied.idx ≤ _
      rw [h1]
      exact max_le h.cons.applied (le_refl _)

/-! ## The log header -/

/-- A header is on disk, and the entries with it. -/
theorem StoreOk.withHeader {opts : Options} {st : Store n} {hdr : LogHeader n}
    {standing leading : Bool} {m : Nat} (h : StoreOk w p opts st)
    (hp : w'.peer p = { w.peer p with
      cur := hdr.term, standing := standing, leading := leading, synced := m })
    (hge : (w.peer p).cur ≤ hdr.term) (hm : (w.peer p).synced ≤ m)
    (hlen : m ≤ (w.peer p).log.length) :
    StoreOk w' p opts (st.put { st.db with hdr := hdr } true) where
  log := by
    rw [hp]
    exact h.log
  entries := h.entries
  term := by rw [hp]; rfl
  nonneg := by
    rw [hp]
    exact le_trans h.nonneg hge
  mem := by simp [Store.put]
  kept := by
    intro d hd
    obtain rfl : d = { st.db with hdr := hdr } := by simpa [Store.put] using hd
    rw [hp]
    exact (h.kept_self.self rfl hm (by rwa [h.length] at hlen)).withHeader hdr

theorem Stored.withHeader (h : Stored w p ri) {hdr : LogHeader n} {standing leading : Bool}
    (hp : w'.peer p = { w.peer p with
      cur := hdr.term, standing := standing, leading := leading, synced := (w.peer p).synced })
    (hge : (w.peer p).cur ≤ hdr.term) : Stored w' p (ri.withHeader hdr) where
  self := h.self
  running := h.running
  store := h.store.withHeader hp hge (le_refl _) (by rw [h.store.length]; exact h.store.synced_le)
  cons := h.cons.withHeader hdr
  sync := by
    rw [hp]
    exact h.sync
  hdr := rfl
  commit := by
    rw [hp]
    exact h.commit
  applied := by
    rw [hp]
    exact h.applied
  persisted := by
    intro hper
    obtain ⟨h1, h2⟩ := h.persisted hper
    refine ⟨h1, fun d hd => ?_⟩
    obtain rfl : d = { ri.store.db with hdr := hdr } := by
      simpa [RaftInstance.withHeader, Store.put] using hd
    exact h2 ri.store.db h.store.mem

/-- `raft_server_log_header_write`: a term is persisted, and everything is synced with it. -/
theorem Stored.headerWritten (h : Stored w p ri) {hdr : LogHeader n} {standing leading : Bool}
    (hp : w'.peer p = { w.peer p with
      cur := hdr.term, standing := standing, leading := leading
      synced := (w.peer p).log.length })
    (hge : (w.peer p).cur ≤ hdr.term) : Stored w' p (ri.withHeader hdr).flushed := by
  have hmid : Stored (w.setPeer p { w.peer p with
      cur := hdr.term, standing := standing, leading := leading, synced := (w.peer p).synced }) p
      (ri.withHeader hdr) := h.withHeader setPeer_self hge
  exact hmid.flushed (by rw [hp, setPeer_self])

/-! ## Entries -/

/-- An entry is stored at the end of the log. -/
theorem Stored.withEntry (h : Stored w p ri) {re : Entry}
    (hre : EntryOk ri.entryMaxDataSize ri.store.db.entries.length re)
    (hterm : ri.newestUnsync.term ≤ re.term)
    (hp : w'.peer p = { w.peer p with
      log := (w.peer p).log ++ [re.core]
      synced := if ri.doesSynchronousWrites then (w.peer p).log.length + 1
        else (w.peer p).synced }) :
    Stored w' p (ri.withEntry re) := by
  have hcons := h.cons.withEntry hre hterm
  have hmono : (w.peer p).synced ≤ (w'.peer p).synced := by
    have := h.store.synced_le
    have := h.store.length
    rw [hp]
    dsimp only
    split <;> omega
  have hlen : (w'.peer p).synced ≤ (ri.store.db.entries ++ [re]).length := by
    have := h.store.synced_le
    have := h.store.length
    rw [hp, List.length_append, List.length_singleton]
    dsimp only
    split <;> omega
  -- the new contents
  have hnew : Kept ri.opts { ri.store.db with entries := ri.store.db.entries ++ [re] }
      (w'.peer p).synced { ri.store.db with entries := ri.store.db.entries ++ [re] } := by
    have hk := h.store.kept_self
    exact ⟨rfl, rfl, List.prefix_refl _, hlen, lt_of_lt_of_le hk.applied (by exact_mod_cast hmono),
      hk.appliedSynced, hk.reapedApplied⟩
  refine ⟨h.self, h.running, ?_, hcons, ?_, h.hdr, ?_, ?_, ?_⟩
  · refine ⟨?_, hcons.entries, ?_, ?_, ?_, ?_⟩
    · rw [hp, h.store.log]
      simp [RaftInstance.withEntry, Store.put]
    · rw [hp]
      exact h.store.term
    · rw [hp]
      exact h.store.nonneg
    · unfold RaftInstance.withEntry Store.put
      cases ri.doesSynchronousWrites <;> simp
    · intro d hd
      cases hs : ri.doesSynchronousWrites with
      | true =>
        obtain rfl : d = { ri.store.db with entries := ri.store.db.entries ++ [re] } := by
          simpa [RaftInstance.withEntry, Store.put, hs] using hd
        exact hnew
      | false =>
        have hd' : d ∈ ri.store.recoverable ∨
            d = { ri.store.db with entries := ri.store.db.entries ++ [re] } := by
          simpa [RaftInstance.withEntry, Store.put, hs] using hd
        rcases hd' with hd' | rfl
        · have hsame : (w'.peer p).synced = (w.peer p).synced := by
            rw [hp, hs]
            rfl
          rw [hsame]
          exact (h.store.kept d hd').withEntry re
        · exact hnew
  · change (if ri.doesSynchronousWrites then re.header else ri.newestSync) =
      lastHeader ((ri.store.db.entries ++ [re]).take (w'.peer p).synced)
    rw [hp]
    cases hs : ri.doesSynchronousWrites with
    | true =>
      rw [if_pos rfl, if_pos rfl, h.store.length, List.take_of_length_le (by simp),
        lastHeader_append]
    | false =>
      rw [if_neg (by simp), if_neg (by simp), List.take_append_of_le_length h.store.synced_le]
      exact h.sync
  · rw [hp]
    exact h.commit
  · exact lt_of_lt_of_le h.applied (by exact_mod_cast hmono)
  · intro hper
    obtain ⟨h1, h2⟩ := h.persisted hper
    refine ⟨h1, fun d hd => ?_⟩
    cases hs : ri.doesSynchronousWrites with
    | true =>
      obtain rfl : d = { ri.store.db with entries := ri.store.db.entries ++ [re] } := by
        simpa [RaftInstance.withEntry, Store.put, hs] using hd
      exact h2 ri.store.db h.store.mem
    | false =>
      have hd' : d ∈ ri.store.recoverable ∨
          d = { ri.store.db with entries := ri.store.db.entries ++ [re] } := by
        simpa [RaftInstance.withEntry, Store.put, hs] using hd
      rcases hd' with hd' | rfl
      · exact h2 d hd'
      · exact h2 ri.store.db h.store.mem

/-- The log is cut down to `m` entries, none of which is committed or applied. -/
theorem Stored.cutDown (h : Stored w p ri) {m : Nat} (hsync : ri.newestSync = ri.newestUnsync)
    (hm : m ≤ (w.peer p).log.length) (happ : ri.lastApplied.idx < m)
    (hdb : (appliedOf ri.opts ri.store.db).idx < m)
    (hp : w'.peer p = { w.peer p with
      log := (w.peer p).log.take m, synced := min (w.peer p).synced m }) :
    Stored w' p (ri.cutDown m) := by
  have hsynced : (w'.peer p).synced = m := by
    rw [hp, h.synced_eq hsync]
    exact Nat.min_eq_right hm
  have hlen : (ri.store.db.entries.take m).length = m := by
    rw [List.length_take, ← h.store.length]
    exact Nat.min_eq_left hm
  have hk := h.store.kept_self
  have hkept : Kept ri.opts (ri.store.db.truncate m) (w'.peer p).synced
      (ri.store.db.truncate m) := by
    refine ⟨rfl, rfl, List.prefix_refl _, ?_, ?_, hk.appliedSynced, hk.reapedApplied⟩
    · rw [hsynced]
      exact le_of_eq hlen.symm
    · rw [hsynced]
      exact hdb
  refine ⟨h.self, h.running, ⟨?_, h.store.entries.take m, ?_, ?_, ?_, ?_⟩,
    h.cons.cutDown (by rwa [← h.store.length]), ?_, h.hdr, ?_, ?_, ?_⟩
  · rw [hp, h.store.log, ← List.map_take]
    rfl
  · rw [hp]
    exact h.store.term
  · rw [hp]
    exact h.store.nonneg
  · simp [RaftInstance.cutDown, Store.put]
  · intro d hd
    obtain rfl : d = ri.store.db.truncate m := by
      simpa [RaftInstance.cutDown, Store.put] using hd
    exact hkept
  · change _ = lastHeader ((ri.store.db.entries.take m).take (w'.peer p).synced)
    rw [hsynced, List.take_take, Nat.min_self]
    rfl
  · rw [hp]
    exact h.commit
  · rw [hsynced]
    exact happ
  · intro hper
    obtain ⟨h1, h2⟩ := h.persisted hper
    refine ⟨h1, fun d hd => ?_⟩
    obtain rfl : d = ri.store.db.truncate m := by
      simpa [RaftInstance.cutDown, Store.put] using hd
    exact h2 ri.store.db h.store.mem

/-! ## Indexes -/

/-- The commit index is raised. -/
theorem Stored.committed (h : Stored w p ri) {idx : Int} {c : Nat} (hidx : idx = c - 1)
    (hp : w'.peer p = { w.peer p with commit := c }) :
    Stored w' p { ri with commitIdx := idx } where
  self := h.self
  running := h.running
  store := ⟨by rw [hp]; exact h.store.log, h.store.entries, by rw [hp]; exact h.store.term,
    by rw [hp]; exact h.store.nonneg, h.store.mem, by rw [hp]; exact h.store.kept⟩
  cons := ⟨h.cons.entries, h.cons.unsync, h.cons.sync, h.cons.reaped, h.cons.applied⟩
  sync := by
    rw [hp]
    exact h.sync
  hdr := h.hdr
  commit := by
    rw [hp]
    exact hidx
  applied := by
    rw [hp]
    exact h.applied
  persisted := h.persisted

/-- A checkpoint is taken. -/
theorem Stored.checkpointed (h : Stored w p ri) (idx : Int) :
    Stored w p { ri with
      checkpointLastIdx := idx
      store := ri.store.put { ri.store.db with chkptIdx := idx } true } where
  self := h.self
  running := h.running
  store := ⟨h.store.log, h.store.entries, h.store.term, h.store.nonneg, by simp [Store.put],
    fun d hd => by
      obtain rfl : d = { ri.store.db with chkptIdx := idx } := by simpa [Store.put] using hd
      have hk := h.store.kept_self
      exact ⟨rfl, rfl, hk.entries, hk.synced, hk.applied, hk.appliedSynced, hk.reapedApplied⟩⟩
  cons := ⟨h.cons.entries, h.cons.unsync, h.cons.sync, h.cons.reaped, h.cons.applied⟩
  sync := h.sync
  hdr := h.hdr
  commit := h.commit
  applied := h.applied
  persisted := by
    intro hper
    obtain ⟨h1, h2⟩ := h.persisted hper
    refine ⟨h1, fun d hd => ?_⟩
    obtain rfl : d = { ri.store.db with chkptIdx := idx } := by simpa [Store.put] using hd
    exact h2 ri.store.db h.store.mem

/-- Applied entries are reaped. -/
theorem Stored.reaped (h : Stored w p ri) {low : Int}
    (hper : ri.opts.storeType = .rocksdbPersistentApp) (hlow : ri.lowestIdx ≤ low)
    (happ : low ≤ ri.lastApplied.syncedIdx) :
    Stored w p { ri with
      lowestIdx := low
      store := ri.store.put (ri.store.db.reap low.toNat) true } := by
  obtain ⟨h1, h2⟩ := h.persisted hper
  have hk := h.store.kept_self
  have hrec := (h2 ri.store.db h.store.mem).1
  refine ⟨h.self, h.running, ⟨h.store.log, h.store.entries, h.store.term, h.store.nonneg,
    by simp [Store.put], ?_⟩, ⟨h.cons.entries, h.cons.unsync, h.cons.sync, ?_, h.cons.applied⟩,
    h.sync, h.hdr, h.commit, h.applied, fun _ => ⟨h1, ?_⟩⟩
  · intro d hd
    obtain rfl : d = ri.store.db.reap low.toNat := by simpa [Store.put] using hd
    refine ⟨rfl, rfl, hk.entries, hk.synced, hk.applied, hk.appliedSynced, ?_⟩
    have := hk.reapedApplied
    change ((max ri.store.db.reaped low.toNat : Nat) : Int) ≤
      max 0 (appliedOf ri.opts ri.store.db).idx
    omega
  · have := h.cons.reaped
    change ((max ri.store.db.reaped low.toNat : Nat) : Int) ≤ max 0 low
    omega
  · intro d hd
    obtain rfl : d = ri.store.db.reap low.toNat := by simpa [Store.put] using hd
    exact h2 ri.store.db h.store.mem

end Refinement

end NiovaRaft
