import NiovaRaft.StateMachine.ExactlyOnce

/-!
# The checksums of what was applied

The last-applied record carries one checksum over the entries and one over the keys and values of
the write supplements, and peers are compared by them.  The second runs through the sub-entries of
an entry, but the record takes it over only with the last of them.  A process that goes on in the
middle of an entry starts from the checksum before it, and what was applied of the entry does not
count.
-/

namespace NiovaRaft

variable {n : Nat}

/-- Whenever server `p` applies, the entries it has committed are those of `log`, and it does not go
on in an entry whose supplements so far have changed the running checksum. -/
def AppliesCleanly [Externals] (log : List Entry) (p : Fin n) (c : Cluster n) (e : Event n) : Prop :=
  AppliesLog log p c e ∧ (e.server = p → e.applies = true → CleanResume (c.servers p))

instance [Externals] (log : List Entry) (p : Fin n) (c : Cluster n) (e : Event n) :
    Decidable (AppliesCleanly log p c e) :=
  inferInstanceAs (Decidable (_ ∧ (_ → _ → _)))

/-- All sub-entries of the entries up to `idx` are applied, and nothing else. -/
def AppliedAll (idx : Int) (la : LastApplied) : Prop := la.idx = idx ∧ la.subIdx = la.subIdxMax

instance (idx : Int) (la : LastApplied) : Decidable (AppliedAll idx la) :=
  inferInstanceAs (Decidable (_ ∧ _))

/-- The checksums of a server are those of the entries it applied and of the supplements. -/
theorem Cluster.Reach.summed [Externals] {log : List Entry} {opts : Fin n → Options}
    {c : Cluster n} {p : Fin n} (h : Cluster.Reach (AppliesCleanly log p) opts c)
    (happ : (opts p).storeType = .rocksdbPersistentApp) {idx : Int}
    (hall : AppliedAll idx (c.servers p).lastApplied) :
    (c.servers p).lastApplied.cumulativeCrc = entriesCrc (log.take (idx + 1).toNat) ∧
      (c.servers p).lastApplied.kvCumulativeCrc = kvCrc 0 ((c.servers p).store.db.supplements.take
        (subEntriesOf (log.take (idx + 1).toNat)).length) := by
  have hri : Resumable True log (c.servers p) :=
    h.resumable happ (fun _ _ he => he.1) fun _ _ _ he => he.2
  obtain ⟨hcrc, hkv⟩ := hri.mem.summed trivial
  have hnext : (RaftServer.nextApplyIdx (c.servers p).lastApplied).idx = idx + 1 := by
    rw [RaftServer.nextApplyIdx, if_pos hall.2, ← hall.1]
  rw [hnext] at hcrc hkv
  exact ⟨hcrc, hkv⟩

/-- Two servers of persistent applications that have applied the same entries with the same
supplements have the same checksums, whatever crashes they went through, as long as neither went on
in an entry whose supplements so far had changed the running checksum. -/
theorem checksums_history_independent [Externals] {m : Nat} {log log' : List Entry}
    {opts : Fin n → Options} {opts' : Fin m → Options} {c : Cluster n} {c' : Cluster m} {p : Fin n}
    {q : Fin m} (happ : (opts p).storeType = .rocksdbPersistentApp)
    (happ' : (opts' q).storeType = .rocksdbPersistentApp)
    (h : Cluster.Reach (AppliesCleanly log p) opts c)
    (h' : Cluster.Reach (AppliesCleanly log' q) opts' c') {idx : Int}
    (hall : AppliedAll idx (c.servers p).lastApplied)
    (hall' : AppliedAll idx (c'.servers q).lastApplied)
    (hlog : log.take (idx + 1).toNat = log'.take (idx + 1).toNat)
    (hsupp : (c.servers p).store.db.supplements = (c'.servers q).store.db.supplements) :
    (c.servers p).lastApplied.cumulativeCrc = (c'.servers q).lastApplied.cumulativeCrc ∧
      (c.servers p).lastApplied.kvCumulativeCrc = (c'.servers q).lastApplied.kvCumulativeCrc := by
  obtain ⟨hcrc, hkv⟩ := h.summed happ hall
  obtain ⟨hcrc', hkv'⟩ := h'.summed happ' hall'
  rw [hcrc, hkv, hcrc', hkv', hlog, hsupp]
  exact ⟨rfl, rfl⟩

/-- Server 1 applies the entry of two requests in one go. -/
def appliedAtOnce : List (Event 3) := coalescedServed ++ [.apply 1, .apply 1]

/-- It crashes before the entry, and applies it after that. -/
def crashedBefore : List (Event 3) :=
  coalescedServed ++ [.apply 1, ⟨1, .smApply Event.storeBytes, some 0, 9⟩, .deliver 1 13, .apply 1]

/-- It crashes between the two requests. -/
def resumedBetween : List (Event 3) := crashedBetween ++ [.apply 1]

theorem checksums_history_independent_crashedBefore :
    ((afterAppRun appliedAtOnce).servers 1).lastApplied.cumulativeCrc =
        ((afterAppRun crashedBefore).servers 1).lastApplied.cumulativeCrc ∧
      ((afterAppRun appliedAtOnce).servers 1).lastApplied.kvCumulativeCrc =
        ((afterAppRun crashedBefore).servers 1).lastApplied.kvCumulativeCrc := by
  have h : @Cluster.Reach 3 sampleExternals (@AppliesCleanly 3 sampleExternals coalescedLog 1)
      appServers (afterAppRun appliedAtOnce) := reach_afterAppRun_of (by decide +kernel)
  have h' : @Cluster.Reach 3 sampleExternals (@AppliesCleanly 3 sampleExternals coalescedLog 1)
      appServers (afterAppRun crashedBefore) := reach_afterAppRun_of (by decide +kernel)
  have hall : AppliedAll 1 ((afterAppRun appliedAtOnce).servers 1).lastApplied := by decide +kernel
  have hall' : AppliedAll 1 ((afterAppRun crashedBefore).servers 1).lastApplied := by
    decide +kernel
  have hsupp : ((afterAppRun appliedAtOnce).servers 1).store.db.supplements =
      ((afterAppRun crashedBefore).servers 1).store.db.supplements := by decide +kernel
  exact @checksums_history_independent 3 sampleExternals 3 _ _ _ _ _ _ _ _ rfl rfl h h' _ hall hall'
    rfl hsupp

/-- With the crash between the requests, the same entries and supplements give another checksum. -/
theorem resumedBetween_other_checksum :
    @Cluster.Reach 3 sampleExternals (AppliesLog coalescedLog 1) appServers
        (afterAppRun appliedAtOnce) ∧
      @Cluster.Reach 3 sampleExternals (AppliesLog coalescedLog 1) appServers
        (afterAppRun resumedBetween) ∧
      AppliedAll 1 ((afterAppRun appliedAtOnce).servers 1).lastApplied ∧
      AppliedAll 1 ((afterAppRun resumedBetween).servers 1).lastApplied ∧
      ((afterAppRun appliedAtOnce).servers 1).store.db.supplements =
        ((afterAppRun resumedBetween).servers 1).store.db.supplements ∧
      ((afterAppRun appliedAtOnce).servers 1).lastApplied.kvCumulativeCrc ≠
        ((afterAppRun resumedBetween).servers 1).lastApplied.kvCumulativeCrc :=
  ⟨reach_afterAppRun_of (by decide +kernel), reach_afterAppRun_of (by decide +kernel),
    by decide +kernel, by decide +kernel, by decide +kernel, by decide +kernel⟩

end NiovaRaft
