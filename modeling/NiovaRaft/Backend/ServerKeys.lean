import NiovaRaft.Backend.CallKeys
import NiovaRaft.Server.Permanence

/-!
# The keys under a running server

A server makes its calls with arguments that fit its log.  So the database of its RocksDB backend
reads as the contents in the server's model, whatever its peers send, and what a crash leaves of the
one reads as what it leaves of the other.

A server writes entries one after the other, but before a pruned log is cut down its next entry
takes the place of another one.  It never compacts all of its log, so the log is never taken to be
empty when it is not.
-/

namespace NiovaRaft

open Base Base.Handler

variable {n : Nat}

/-! ## The calls of a server -/

/-- With which arguments a call is made in a write from `ri` to `ri'`. -/
def DbCall.Issued (ri ri' : RaftInstance n) : DbCall n → Prop
  | entryWrite sync re _ _ => sync = ri.doesSynchronousWrites ∧
      re.header.index = ri.newestUnsync.index + 1 ∧ re.header.dataSize ≤ ri.entryMaxDataSize
  | logTruncate k => k = (ri.newestSync.index + 1).toNat
  | logReap k => k = ri'.lowestIdx.toNat
  | headerWrite hdr => hdr = ri'.logHdr
  | smApplyOpt la _ => la = ri'.lastApplied
  | checkpoint idx => idx = ri'.checkpointLastIdx
  | backendSync _ => True

section Server

variable [Externals]

/-- One write of a server: of a handler, of the sender to the slot of a peer, of an apply or of the
checkpoint thread. -/
inductive ServerWrite (ri : RaftInstance n) : RaftInstance n → Prop
  | handler {cause : Option (Packet n)} {ri' : RaftInstance n} (h : Update cause ri ri') :
      ServerWrite ri ri'
  | slot (q : Fin n) (rfi : FollowerInfo) (h : SlotRefresh ri (ri.followerInfo q) rfi) :
      ServerWrite ri (ri.setFollowerInfo q rfi)
  | record (la : LastApplied) (batch : Option AppBatch) (hidx : ri.lastApplied.idx ≤ la.idx)
      (hcommit : la.idx ≤ ri.commitIdx) (hsynced : la.syncedIdx = ri.lastApplied.syncedIdx) :
      ServerWrite ri (ri.recordApplied la batch)
  | checkpoint (h : 0 ≤ ri.lastApplied.syncedIdx) :
      ServerWrite ri (ri.withCheckpoint ri.lastApplied.syncedIdx)
  | reap (keep : Int) (hkeep : 500 ≤ keep) (hlow : ri.lowestIdx < ri.lastApplied.syncedIdx - keep) :
      ServerWrite ri (ri.reapTo (ri.lastApplied.syncedIdx - keep))

/-- The instances that a server's writes lead to, from its start on an empty backend, with the calls
made until then. -/
inductive Driven (p : Fin n) (opts : Options) : List (DbCall n) → RaftInstance n → Prop
  | start : Driven p opts [.logTruncate 0] (RaftServer.instanceRun p opts RaftServer.freshDb)
  | quiet {calls : List (DbCall n)} {ri ri' : RaftInstance n} (h : Driven p opts calls ri)
      (hwrite : ServerWrite ri ri') (hstore : ri'.store = ri.store) : Driven p opts calls ri'
  | call {calls : List (DbCall n)} {ri ri' : RaftInstance n} (c : DbCall n)
      (h : Driven p opts calls ri) (hwrite : ServerWrite ri ri') (hissued : c.Issued ri ri')
      (hstore : ri'.store = ri.store.put (c.onDb ri.store.db) c.synced) :
      Driven p opts (calls ++ [c]) ri'

variable {p : Fin n} {opts : Options} {ri ri' : RaftInstance n} {calls : List (DbCall n)}

/-- Every write makes one call at most. -/
theorem Driven.write (h : Driven p opts calls ri) (hwrite : ServerWrite ri ri') :
    ∃ calls', Driven p opts calls' ri' := by
  cases id hwrite with
  | handler hup =>
    cases hup with
    | role | lead | slot | recovery | synced | appliedSynced | newest | commit =>
      exact ⟨_, h.quiet hwrite rfl⟩
    | header cand term => exact ⟨_, h.call (.headerWrite _) hwrite rfl rfl⟩
    | flush => exact ⟨_, h.call (.backendSync []) hwrite trivial rfl⟩
    | entry term data sizes marker _ _ _ hfits =>
      exact ⟨_, h.call (.entryWrite _ _ ⟨[], []⟩ []) hwrite ⟨rfl, rfl, hfits⟩ rfl⟩
    | truncate => exact ⟨_, h.call (.logTruncate _) hwrite rfl rfl⟩
  | slot q rfi => exact ⟨_, h.quiet hwrite rfl⟩
  | record la batch =>
    by_cases hrocks : ri.opts.storeType ≠ .posixFlatFile
    · refine ⟨_, h.call (.smApplyOpt la batch) hwrite rfl ?_⟩
      simp only [RaftInstance.recordApplied, if_pos hrocks]
      rfl
    · refine ⟨_, h.quiet hwrite ?_⟩
      simp only [RaftInstance.recordApplied, if_neg hrocks]
  | checkpoint => exact ⟨_, h.call (.checkpoint _) hwrite rfl rfl⟩
  | reap keep => exact ⟨_, h.call (.logReap _) hwrite rfl rfl⟩

/-- One write leaves the indexes in order. -/
theorem Tracked.write (h : Tracked ri) (hwrite : ServerWrite ri ri') :
    Tracked ri' ∧ ri.lastApplied.syncedIdx ≤ ri'.lastApplied.syncedIdx := by
  cases hwrite with
  | handler hup => exact ⟨(h.update hup).1, (h.update hup).2.synced⟩
  | slot q rfi => exact ⟨{ h with }, le_refl _⟩
  | record la batch hidx hcommit hsynced =>
    exact ⟨h.recordApplied batch hidx hcommit hsynced, hsynced.ge⟩
  | checkpoint => exact ⟨{ h with }, le_refl _⟩
  | reap keep hkeep hlow => exact ⟨h.reapTo hkeep hlow, le_refl _⟩

end Server

/-! ## Runs -/

theorem keysAfter_append (names : RocksNames n) (instanceUuid : List UInt8)
    (calls : List (DbCall n)) (c : DbCall n) :
    keysAfter names instanceUuid (calls ++ [c]) =
      c.onKeys names (keysAfter names instanceUuid calls) := by
  rw [keysAfter, List.foldl_append]
  rfl

theorem appAfter_append (calls : List (DbCall n)) (c : DbCall n) :
    appAfter (calls ++ [c]) = Rocks.writeSupplementsPut (appAfter calls) c.ws := by
  rw [appAfter, List.foldl_append]
  rfl

/-- A log is compacted up to what is synced. -/
theorem Tracked.lowest_le {ri : RaftInstance n} (h : Tracked ri) :
    ri.lowestIdx ≤ max 0 ri.newestSync.index := by
  have hsynced := h.synced.trans (h.applied.trans h.commit)
  have hlow := h.lowest
  omega

/-- What the backend holds after some calls. -/
def HoldsAfter (names : RocksNames n) (instanceUuid : List UInt8) (calls : List (DbCall n))
    (db : Db n) : Prop :=
  Backs names (keysAfter names instanceUuid calls) (appAfter calls) db

theorem HoldsAfter.call {names : RocksNames n} {instanceUuid : List UInt8}
    {calls : List (DbCall n)} {db : Db n} {c : DbCall n}
    (h : HoldsAfter names instanceUuid calls db) (hc : c.InPlace names db)
    (hadm : c.Admitted names) :
    HoldsAfter names instanceUuid (calls ++ [c]) (c.onDb db) := by
  rw [HoldsAfter, keysAfter_append, appAfter_append]
  exact Backs.call h hc hadm

/-- What a crash may leave behind: the calls up to one that is not followed by a synced one. -/
def LeftAfter (names : RocksNames n) (instanceUuid : List UInt8) (calls : List (DbCall n))
    (db : Db n) : Prop :=
  ∃ kept lost, calls = kept ++ lost ∧ (∀ c ∈ lost, c.synced = false) ∧
    HoldsAfter names instanceUuid kept db

/-- The instance, with the keys that its calls have made. -/
structure OnKeys (names : RocksNames n) (instanceUuid : List UInt8) (calls : List (DbCall n))
    (ri : RaftInstance n) : Prop extends Tracked ri where
  started : -1 ≤ ri.lastApplied.syncedIdx
  length : ri.store.db.entries.length < 10 ^ 16
  holds : HoldsAfter names instanceUuid calls ri.store.db
  left : ∀ d ∈ ri.store.recoverable, LeftAfter names instanceUuid calls d

namespace OnKeys

variable {names : RocksNames n} {instanceUuid : List UInt8} {calls : List (DbCall n)}
  {ri ri' : RaftInstance n} {c : DbCall n}

/-- A store's data always fits its field. -/
theorem entryMaxDataSize_lt (ri : RaftInstance n) : ri.entryMaxDataSize < 2 ^ 32 := by
  rw [RaftInstance.entryMaxDataSize]
  cases ri.opts.storeType <;> decide

theorem newestSync_ge (h : OnKeys names instanceUuid calls ri) : -1 ≤ ri.newestSync.index :=
  h.started.trans (h.synced.trans (h.applied.trans h.commit))

/-- The server's arguments fit its log. -/
theorem inPlace (h : OnKeys names instanceUuid calls ri) (h' : Tracked ri')
    (hissued : c.Issued ri ri') (hdb : ri'.store.db = c.onDb ri.store.db)
    (hadm : c.Admitted names) : c.InPlace names ri.store.db := by
  have hstarted := h.newestSync_ge
  have hreaped := h.reaped
  have hlow := h.lowest_le
  have hsync := h.sync
  have hheld := h.held
  have hlen := h.length
  cases c with
  | entryWrite sync re mem ws =>
    obtain ⟨-, hidx, hsize⟩ := hissued
    have hbound := hadm.index sync re mem ws rfl
    have hmax := entryMaxDataSize_lt ri
    refine ⟨?_, by omega, by omega, by omega⟩
    rw [RocksNames.inMemory, dif_pos ⟨by omega, by omega, by omega⟩]
    rfl
  | logTruncate k =>
    obtain rfl : k = (ri.newestSync.index + 1).toNat := hissued
    exact ⟨by omega, by omega⟩
  | logReap k =>
    obtain rfl : k = ri'.lowestIdx.toNat := hissued
    have hlow' := h'.lowest_le
    have hsync' := h'.sync
    have hheld' := h'.held
    have hentries : ri'.store.db.entries = ri.store.db.entries := by rw [hdb]; rfl
    rw [hentries] at hheld'
    exact ⟨by omega, by omega⟩
  | headerWrite | smApplyOpt | checkpoint | backendSync => trivial

theorem length_onDb (h : OnKeys names instanceUuid calls ri) (hissued : c.Issued ri ri')
    (hadm : c.Admitted names) : (c.onDb ri.store.db).entries.length < 10 ^ 16 := by
  have hlen := h.length
  have hheld := h.held
  cases c with
  | entryWrite sync re mem ws =>
    obtain ⟨-, hidx, -⟩ := hissued
    have hbound := hadm.index sync re mem ws rfl
    have hstarted := h.newestSync_ge
    have hsync := h.sync
    show (ri.store.db.write re).entries.length < 10 ^ 16
    rw [Db.length_write]
    split <;> omega
  | logTruncate k =>
    show (ri.store.db.entries.take k).length < 10 ^ 16
    rw [List.length_take]
    omega
  | logReap | headerWrite | smApplyOpt | checkpoint | backendSync => exact hlen

theorem LeftAfter.of_holds {db : Db n} (h : HoldsAfter names instanceUuid calls db) :
    LeftAfter names instanceUuid calls db :=
  ⟨calls, [], (List.append_nil calls).symm, fun _ hc => (List.not_mem_nil hc).elim, h⟩

/-- A new server. -/
theorem start (p : Fin n) (opts : Options) :
    OnKeys names instanceUuid [.logTruncate 0]
      (RaftServer.instanceRun p opts RaftServer.freshDb) := by
  have hstart : RaftServer.instanceRun p opts (RaftServer.freshDb : Db n) =
      Refinement.startedOn p opts RaftServer.freshDb := rfl
  have htracked := Tracked.initial p opts
  rw [hstart] at htracked ⊢
  have hcall : HoldsAfter names instanceUuid [.logTruncate 0] (RaftServer.freshDb : Db n) := by
    have hinit : HoldsAfter names instanceUuid [] (RaftServer.freshDb : Db n) :=
      Backs.initial names instanceUuid
    have hadm : (DbCall.logTruncate 0 : DbCall n).Admitted names := by
      refine ⟨fun _ _ _ _ heq => ?_, fun _ heq => ?_, fun _ hw => ?_⟩
      · cases heq
      · cases heq
      · cases hw
    exact hinit.call ⟨by decide, .inl rfl⟩ hadm
  refine ⟨htracked, ?_, ?_, hcall, fun d hd => ?_⟩
  · simp [Refinement.startedOn, RaftServer.instanceInit, RaftServer.freshDb, LastApplied.initial]
  · simp [Refinement.startedOn, RaftServer.instanceInit, RaftServer.freshDb]
  · obtain rfl := List.mem_singleton.mp hd
    exact LeftAfter.of_holds hcall

/-- A call does to the keys what it does to the instance. -/
theorem call (h : OnKeys names instanceUuid calls ri) (h' : Tracked ri')
    (hsynced : ri.lastApplied.syncedIdx ≤ ri'.lastApplied.syncedIdx) (hissued : c.Issued ri ri')
    (hstore : ri'.store = ri.store.put (c.onDb ri.store.db) c.synced) (hadm : c.Admitted names) :
    OnKeys names instanceUuid (calls ++ [c]) ri' := by
  have hdb : ri'.store.db = c.onDb ri.store.db := by rw [hstore]; rfl
  have hplace := h.inPlace h' hissued hdb hadm
  have hholds := h.holds.call hplace hadm
  refine ⟨h', h.started.trans hsynced, ?_, ?_, fun d hd => ?_⟩
  · rw [hdb]
    exact h.length_onDb hissued hadm
  · rw [hdb]
    exact hholds
  · rw [hstore, Store.put] at hd
    cases hflush : c.synced with
    | true =>
      rw [hflush] at hd
      obtain rfl := List.mem_singleton.mp hd
      exact LeftAfter.of_holds hholds
    | false =>
      rw [hflush] at hd
      rcases List.mem_append.mp hd with hold | hnew
      · obtain ⟨kept, lost, hsplit, hlost, hkept⟩ := h.left d hold
        refine ⟨kept, lost ++ [c], by rw [hsplit, List.append_assoc], fun c' hc' => ?_, hkept⟩
        rcases List.mem_append.mp hc' with hc' | hc'
        · exact hlost c' hc'
        · obtain rfl := List.mem_singleton.mp hc'
          exact hflush
      · obtain rfl := List.mem_singleton.mp hnew
        exact LeftAfter.of_holds hholds

end OnKeys

section Runs

variable [Externals] {names : RocksNames n} {instanceUuid : List UInt8} {p : Fin n}
  {opts : Options} {ri : RaftInstance n} {calls : List (DbCall n)}

theorem Driven.onKeys (h : Driven p opts calls ri) (hadm : ∀ c ∈ calls, c.Admitted names) :
    OnKeys names instanceUuid calls ri := by
  induction h with
  | start => exact .start p opts
  | quiet h hwrite hstore ih =>
    have hri := ih hadm
    obtain ⟨h', hsynced⟩ := hri.toTracked.write hwrite
    exact ⟨h', hri.started.trans hsynced, by rw [hstore]; exact hri.length,
      by rw [hstore]; exact hri.holds, by rw [hstore]; exact hri.left⟩
  | call c h hwrite hissued hstore ih =>
    have hri := ih fun c hc => hadm c (List.mem_append_left _ hc)
    obtain ⟨h', hsynced⟩ := hri.toTracked.write hwrite
    exact hri.call h' hsynced hissued hstore (hadm c (List.mem_append_right _ (by simp)))

/-- After some calls of a server, the database reads as its contents, the application's keys hold
what it has written, and what a crash may leave behind reads as the contents that it leaves. -/
structure Intact (names : RocksNames n) (instanceUuid : List UInt8) (calls : List (DbCall n))
    (ri : RaftInstance n) : Prop where
  contents : ReadsAsDb names (keysAfter names instanceUuid calls) ri.store.db
  app : ∀ key, names.AppKey key →
    (keysAfter names instanceUuid calls).get key = (appAfter calls).get key
  crash : ∀ d ∈ ri.store.recoverable, ∃ kept lost, calls = kept ++ lost ∧
    (∀ c ∈ lost, c.synced = false) ∧ ReadsAsDb names (keysAfter names instanceUuid kept) d

/-- A server's writes lead to the instance, and the calls of any such writes leave it intact. -/
structure RunsOnKeys (names : RocksNames n) (instanceUuid : List UInt8) (p : Fin n)
    (opts : Options) (ri : RaftInstance n) : Prop where
  driven : ∃ calls, Driven p opts calls ri
  intact : ∀ calls, Driven p opts calls ri → (∀ c ∈ calls, c.Admitted names) →
    Intact names instanceUuid calls ri

theorem Driven.intact (h : Driven p opts calls ri) (hadm : ∀ c ∈ calls, c.Admitted names) :
    Intact names instanceUuid calls ri := by
  have hri : OnKeys names instanceUuid calls ri := h.onKeys hadm
  refine ⟨hri.holds.readsAsDb, hri.holds.app, fun d hd => ?_⟩
  obtain ⟨kept, lost, hsplit, hlost, hkept⟩ := hri.left d hd
  exact ⟨kept, lost, hsplit, hlost, hkept.readsAsDb⟩

/-- The server's writes lead to the instance. -/
def IsDriven (p : Fin n) (opts : Options) (ri : RaftInstance n) : Prop :=
  ∃ calls, Driven p opts calls ri

theorem IsDriven.runsOnKeys (h : IsDriven p opts ri) : RunsOnKeys names instanceUuid p opts ri :=
  ⟨h, fun _ hcalls hadm => hcalls.intact hadm⟩

theorem IsDriven.write {ri' : RaftInstance n} (h : IsDriven p opts ri)
    (hwrite : ServerWrite ri ri') :
    IsDriven p opts ri' := by
  obtain ⟨calls, hcalls⟩ := h
  exact hcalls.write hwrite

theorem IsDriven.keeps (p : Fin n) (opts : Options) {c : Cluster n} {e : Event n} :
    Cluster.Keeps c e (IsDriven p opts) where
  write := fun _ _ h hup => h.write (.handler hup)
  refresh := fun _ _ q rfi h _ hslot => h.write (.slot q rfi hslot)
  apply := Cluster.keeps_apply fun _ la batch h hidx hcommit _ hsynced =>
    h.write (.record la batch hidx hcommit hsynced)
  compact := Cluster.keeps_compact (fun _ h hsynced _ => h.write (.checkpoint hsynced))
    fun _ keep h hkeep hlow => h.write (.reap keep hkeep hlow)

/-- An event that the process survives. -/
theorem IsDriven.step {x : Node n} {e : NodeEvent n} (h : IsDriven p opts x.ri) (he : RunsOn x e) :
    IsDriven p opts (x.step e).ri := by
  cases e with
  | stage db => exact absurd he (by simp [RunsOn, Node.survives])
  | finish => exact absurd he (by simp [RunsOn, Node.survives])
  | handle mail e =>
    unfold Node.step
    dsimp only
    split
    · refine (IsDriven.keeps p opts).step (p := e.server) h fun ri d _ habort _ _ _ => ?_
      simp only [RunsOn, Node.survives, habort] at he
      exact absurd he (by simp)
    · exact h

/-- In every run of a server that is not restarted, whatever its peers send, the calls of its
backend leave a database of RocksDB that reads as the server's contents, with the application's keys
as it has written them; and when a handler dies, whatever the crash leaves of the database reads as
what it leaves of the contents. -/
theorem server_runs_on_keys (names : RocksNames n) (instanceUuid : List UInt8) {x : Node n}
    (h : Node.Reach RunsOn p opts x) :
    RunsOnKeys names instanceUuid p opts x.ri ∧
      ∀ mail e d, (x.cluster mail).handler e ((x.cluster mail).proc e) = .abort d →
        ∃ ri, Survives ri d.ri ∧ RunsOnKeys names instanceUuid p opts ri := by
  have hdriven : IsDriven p opts x.ri := by
    induction h with
    | init => exact ⟨_, .start⟩
    | step e _ he ih => exact ih.step he
  refine ⟨hdriven.runsOnKeys, fun mail e d habort => ?_⟩
  have hwp := (IsDriven.keeps p opts).wp_handler (c := x.cluster mail) (e := e) hdriven
  obtain ⟨⟨ri, hri, hd⟩, -⟩ := wp_of_abort habort hwp
  exact ⟨ri, hd, hri.runsOnKeys⟩

end Runs

/-- The names of server 2. -/
def serverNames : RocksNames 3 := ⟨[1], [2], 2, 1, fun i => i.val + 1⟩

theorem server_runs_on_keys_replacesSecond :
    ((@Node.run 3 sampleExternals markerApplied replacesSecond).ri.store.db.read 1).map (·.data) =
        some [8] ∧
      @RunsOnKeys 3 sampleExternals serverNames [3] 2 (threeServers 2)
        (@Node.run 3 sampleExternals markerApplied replacesSecond).ri := by
  have hmarker : @Node.AllEvents 3 sampleExternals (@RunsOn 3 sampleExternals)
      (.initial 2 (threeServers 2)) appliesMarker := by decide +kernel
  have hsecond : @Node.AllEvents 3 sampleExternals (@RunsOn 3 sampleExternals) markerApplied
      replacesSecond := by decide +kernel
  have hreach := @Node.Reach.of_allEvents 3 sampleExternals _ _ _ _
    (@Node.Reach.of_allEvents 3 sampleExternals _ _ _ _
      (@Node.Reach.init 3 sampleExternals _ 2 (threeServers 2)) _ hmarker) _ hsecond
  exact ⟨by decide +kernel, (@server_runs_on_keys 3 sampleExternals _ _ serverNames [3] _ hreach).1⟩

end NiovaRaft
