import NiovaRaft.Safety.LeaderCompleteness
import NiovaRaft.Server.Roles

/-!
# What an accepting leader has applied

A leader accepts a request of a client once it has applied an entry past those it was elected with.
By then it has applied all of them, in this process or, with a persistent application, in one
before it.  What is applied stays in the log: nothing is removed at or below the last-applied index.
-/

namespace NiovaRaft

open Base Base.Handler Base.Replication Refinement RaftServer

variable {n : Nat}

/-! ## What is applied stays in the log -/

/-- The entries up to `idx` are there, and `A` holds of each. -/
def AppliedUpTo (A : Nat → Entry → Prop) (idx : Int) (entries : List Entry) : Prop :=
  ∀ i : Nat, (i : Int) ≤ idx → ∃ re, entries[i]? = some re ∧ A i re

/-- What the last-applied record covers was applied and is in the log, for the process and for one
that takes over from it. -/
structure Remembers (A : Nat → Entry → Prop) (ri : RaftInstance n) : Prop where
  mem : AppliedUpTo A ri.lastApplied.idx ri.store.db.entries
  kept : ri.store.Keeps fun d => AppliedUpTo A (appliedOf ri.opts d).idx d.entries
  record : (appliedOf ri.opts ri.store.db).idx ≤ ri.lastApplied.idx

/-- The same within a handler. -/
structure RemembersNewest (A : Nat → Entry → Prop) (ri : RaftInstance n) : Prop
    extends Remembers A ri where
  newest : ri.lastApplied.idx ≤ ri.newestUnsync.index

theorem AppliedUpTo.mono {A B : Nat → Entry → Prop} {idx : Int} {entries : List Entry}
    (h : AppliedUpTo A idx entries) (hab : ∀ i re, A i re → B i re) : AppliedUpTo B idx entries := by
  intro i hi
  obtain ⟨re, hre, ha⟩ := h i hi
  exact ⟨re, hre, hab i re ha⟩

/-- Entries past the applied ones play no part. -/
theorem AppliedUpTo.congr {A : Nat → Entry → Prop} {idx : Int} {entries entries' : List Entry}
    (h : AppliedUpTo A idx entries)
    (hsame : ∀ i : Nat, (i : Int) ≤ idx → ∀ re, entries[i]? = some re → entries'[i]? = some re) :
    AppliedUpTo A idx entries' := by
  intro i hi
  obtain ⟨re, hre, ha⟩ := h i hi
  exact ⟨re, hsame i hi re hre, ha⟩

theorem Remembers.mono {A B : Nat → Entry → Prop} {ri : RaftInstance n} (h : Remembers A ri)
    (hab : ∀ i re, A i re → B i re) : Remembers B ri :=
  ⟨h.mem.mono hab, h.kept.mono fun _ hd => hd.mono hab, h.record⟩

namespace RemembersNewest

variable {A B : Nat → Entry → Prop} {ri ri' : RaftInstance n}

theorem mono (h : RemembersNewest A ri) (hab : ∀ i re, A i re → B i re) : RemembersNewest B ri :=
  ⟨h.toRemembers.mono hab, h.newest⟩

theorem update [Externals] {cause : Option (Packet n)} (h : RemembersNewest A ri)
    (hup : Update cause ri ri') : RemembersNewest A ri' := by
  have hdb := h.kept.db
  have hrec := h.record
  have hnew := h.newest
  cases hup with
  | role | lead | slot | recovery | synced | commit => exact { h with }
  | appliedSynced => exact { h with }
  | header => exact { h with kept := h.kept.put (by exact hdb) true }
  | flush => exact { h with kept := h.kept.put hdb true }
  | newest re hcommit happlied hread => exact { h with newest := happlied }
  | entry term data sizes marker hterm hidx hsizes hfits =>
    -- the entry goes past the newest one
    have hstay : ∀ idx, idx ≤ ri.lastApplied.idx → ∀ i : Nat, (i : Int) ≤ idx → ∀ re,
        ri.store.db.entries[i]? = some re →
        (ri.store.db.write (ri.nextEntry term data sizes marker)).entries[i]? = some re := by
      intro idx hle i hi re hre
      have hne : (ri.newestUnsync.index + 1).toNat ≠ i := by omega
      change (if (ri.newestUnsync.index + 1).toNat < ri.store.db.entries.length then
        ri.store.db.entries.set (ri.newestUnsync.index + 1).toNat _ else
        ri.store.db.entries ++ [_])[i]? = some re
      split
      · rw [List.getElem?_set_ne hne, hre]
      · rw [List.getElem?_append_left (List.getElem?_eq_some_iff.mp hre).1, hre]
    refine ⟨⟨h.mem.congr (hstay _ (le_refl _)), h.kept.put ?_ _, hrec⟩, ?_⟩
    · exact hdb.congr (hstay _ hrec)
    · change ri.lastApplied.idx ≤ ri.newestUnsync.index + 1
      omega
  | truncate hidx hcommit happlied hnewest hstate =>
    have hstay : ∀ idx, idx ≤ ri.lastApplied.idx → ∀ i : Nat, (i : Int) ≤ idx → ∀ re,
        ri.store.db.entries[i]? = some re →
        (ri.store.db.truncate (ri.newestSync.index + 1).toNat).entries[i]? = some re := by
      intro idx hle i hi re hre
      change (ri.store.db.entries.take (ri.newestSync.index + 1).toNat)[i]? = some re
      rw [List.getElem?_take_of_lt (by omega), hre]
    refine ⟨⟨h.mem.congr (hstay _ (le_refl _)), h.kept.put ?_ true, hrec⟩, hnew⟩
    exact hdb.congr (hstay _ hrec)

/-- The record moves to an entry that `A` holds of. -/
theorem recordApplied (h : RemembersNewest A ri) {la : LastApplied} {batch : Option AppBatch} {re : Entry}
    (hge : ri.lastApplied.idx ≤ la.idx) (hle : la.idx ≤ ri.lastApplied.idx + 1)
    (hnew : la.idx ≤ ri.newestUnsync.index)
    (hre : ri.store.db.entries[la.idx.toNat]? = some re) (ha : A la.idx.toNat re) :
    RemembersNewest A (ri.recordApplied la batch) := by
  have hall : AppliedUpTo A la.idx ri.store.db.entries := by
    intro i hi
    by_cases hold : (i : Int) ≤ ri.lastApplied.idx
    · exact h.mem i hold
    · obtain rfl : la.idx.toNat = i := by omega
      exact ⟨re, hre, ha⟩
  by_cases hrocks : ri.opts.storeType ≠ .posixFlatFile
  · rw [RaftInstance.recordApplied, if_pos hrocks]
    refine ⟨⟨hall, h.kept.put ?_ false, ?_⟩, hnew⟩
    all_goals by_cases hper : ri.opts.storeType = .rocksdbPersistentApp
    · rw [appliedOf, if_pos hper]
      exact hall
    · have hdb := h.kept.db
      rw [appliedOf, if_neg hper] at hdb ⊢
      exact hdb
    · rw [appliedOf, if_pos hper]
      exact le_refl _
    · have hrec := h.record
      rw [appliedOf, if_neg hper] at hrec ⊢
      exact le_trans hrec hge
  · rw [RaftInstance.recordApplied, if_neg hrocks]
    exact ⟨⟨hall, h.kept, le_trans h.record hge⟩, hnew⟩

end RemembersNewest

/-! ## Applying -/

/-- Those that `A` holds of, and those that were taken for the state machine since. -/
def Since (A : Nat → Entry → Prop) (trace : List (Obs n)) (i : Nat) (re : Entry) : Prop :=
  A i re ∨ Obs.applies i re.header.term re.header.entrySz re.data ∈ trace

theorem Since.mono {A : Nat → Entry → Prop} {trace trace' : List (Obs n)} (h : trace ⊆ trace')
    (i : Nat) (re : Entry) : Since A trace i re → Since A trace' i re :=
  Or.imp_right fun hmem => h hmem

theorem RaftServer.nextApplyIdx_le_succ (la : LastApplied) : (nextApplyIdx la).idx ≤ la.idx + 1 := by
  unfold nextApplyIdx
  split
  · exact le_refl _
  · exact Int.le_add_one (le_refl _)

theorem RaftInstance.recordApplied_entries (ri : RaftInstance n) (la : LastApplied)
    (batch : Option AppBatch) :
    (ri.recordApplied la batch).store.db.entries = ri.store.db.entries := by
  unfold RaftInstance.recordApplied
  simp only
  split <;> rfl

/-- While entry `idx` is applied. -/
structure ApplyingAt (A : Nat → Entry → Prop) (re : Entry) (idx : Int) (trace : List (Obs n))
    (s : Proc n) : Prop where
  ri : RemembersNewest (Since A trace) s.ri
  since : trace ⊆ s.trace
  held : s.ri.store.db.entries[idx.toNat]? = some re
  newest : idx ≤ s.ri.newestUnsync.index
  above : s.ri.lastApplied.idx ≤ idx
  next : idx ≤ s.ri.lastApplied.idx + 1
  taken : Since A trace idx.toNat re

namespace ApplyingAt

variable {A : Nat → Entry → Prop} {re : Entry} {idx : Int} {trace : List (Obs n)} {s : Proc n}

theorem remembers (h : ApplyingAt A re idx trace s) : RemembersNewest (Since A s.trace) s.ri :=
  h.ri.mono (Since.mono h.since)

/-- A process that dies leaves behind what was written. -/
theorem dies (h : ApplyingAt A re idx trace s) {d : Proc n} (htrace : s.trace ⊆ d.trace)
    (hd : Survives s.ri d.ri) :
    ∃ ri, RemembersNewest (Since A d.trace) ri ∧ Survives ri d.ri :=
  ⟨s.ri, h.remembers.mono (Since.mono htrace), hd⟩

/-- A sub-entry of it is applied. -/
theorem record (h : ApplyingAt A re idx trace s) {nai : LastApplied} (hidx : nai.idx = idx)
    {batch : Option AppBatch} {trace' : List (Obs n)} (htrace : s.trace ⊆ trace')
    {fuse : Option Nat} :
    ApplyingAt A re idx trace { s with
      ri := s.ri.recordApplied (s.ri.lastApplied.moveTo nai) batch
      trace := trace'
      fuse := fuse } := by
  have hla : (s.ri.lastApplied.moveTo nai).idx = idx := by rw [LastApplied.moveTo_idx, hidx]
  have hheld : s.ri.store.db.entries[(s.ri.lastApplied.moveTo nai).idx.toNat]? = some re := by
    rw [hla]
    exact h.held
  refine ⟨h.ri.recordApplied ?_ ?_ ?_ hheld ?_, fun _ hm => htrace (h.since hm), ?_,
    h.newest, ?_, ?_, h.taken⟩
  · rw [hla]
    exact h.above
  · rw [hla]
    exact h.next
  · rw [hla]
    exact h.newest
  · rw [hla]
    exact h.taken
  · rw [RaftInstance.recordApplied_entries]
    exact h.held
  · exact le_of_eq hla
  · change idx ≤ (s.ri.lastApplied.moveTo nai).idx + 1
    rw [hla]
    exact Int.le_add_one (le_refl _)

end ApplyingAt

/-- An apply takes the next entry of the log, and says so. -/
theorem RemembersNewest.wp_stateMachineApply [Externals] {A : Nat → Entry → Prop}
    {cb : SmRequestCb} {s : Proc n} (h : RemembersNewest A s.ri) (hc : Consistent s.ri) :
    (stateMachineApply cb).wp (fun _ s' => RemembersNewest (Since A s'.trace) s'.ri)
      (fun d => ∃ ri, RemembersNewest (Since A d.trace) ri ∧ Survives ri d.ri) s := by
  have hstay : ∀ trace : List (Obs n), RemembersNewest (Since A trace) s.ri := fun _ =>
    h.mono fun _ _ => .inl
  -- an entry is taken, with the bytes it holds
  have hstart : ∀ re data, TakesNext s.ri re → data = re.data →
      ApplyingAt A re (startRecord s.ri.lastApplied re).idx
        (s.trace ++ [.applies re.header.index re.header.term re.header.entrySz data])
        { s with
          trace := s.trace ++ [.applies re.header.index re.header.term re.header.entrySz data] } := by
    rintro re data hnext rfl
    have hlt := (List.getElem?_eq_some_iff.mp hnext.held).1
    have hun := hc.unsync_index
    have h0 := hnext.nonneg
    refine ⟨hstay _, fun _ => id, hnext.held, ?_, le_nextApplyIdx _, nextApplyIdx_le_succ _,
      .inr ?_⟩
    · change (nextApplyIdx s.ri.lastApplied).idx ≤ s.ri.newestUnsync.index
      omega
    · have hcast : ((startRecord s.ri.lastApplied re).idx.toNat : Int) = re.header.index := by
        rw [hnext.index]
        exact Int.toNat_of_nonneg h0
      rw [hcast]
      simp
  refine wp_stateMachineApply_rule ⟨s.ri, hstay _, .refl _⟩ (fun _ => hstay _)
    (fun re hnext hidle => ?_) fun re hnext _ => ?_
  all_goals have hok := hc.entries.entry _ _ hnext.held
  · have hdata : ([] : List UInt8) = re.data := by
      symm
      rw [← List.length_eq_zero_iff, hok.dataLength]
      exact hidle.elim hok.marker id
    have hat := hstart re [] hnext hdata
    refine wp_setLastApplied_record (fun _ => hat.dies (fun _ => id) (.refl _))
      (fun _ => hat.dies (fun _ => id) ⟨rfl, rfl, rfl⟩) fun fuse _ _ _ => ?_
    have hdone := @ApplyingAt.record _ _ _ _ _ _ hat _ rfl none _ (fun _ => id) fuse
    exact wp_notifyIfNeedsApply (hdone.dies (fun _ => id) (.refl _)) hdone.remembers
  · have hat := hstart re (re.data.take re.header.dataSize) hnext
      (List.take_of_length_le (le_of_eq hok.dataLength))
    refine wp_mono (wp_applySubEntries_all (I := fun _ nai s' =>
      nai.idx = (startRecord s.ri.lastApplied re).idx ∧
        ApplyingAt A re (startRecord s.ri.lastApplied re).idx _ s') ⟨rfl, hat⟩
      (fun _ _ _ _ hI => hI) ?_) ?_ fun _ => id
    · rintro k size nai s' _ _ ⟨hidx, hI⟩
      have hobs : ∀ rncr, s'.trace ⊆ s'.trace ++ [.requests nai.idx k rncr] :=
        fun _ => List.subset_append_left _ _
      refine wp_applySubEntry rfl (fun _ => hI.dies (hobs _) (.refl _))
        (fun _ => hI.dies (hobs _) ⟨rfl, rfl, rfl⟩) fun fuse _ _ _ => ⟨?_, ?_⟩
      · rw [LastApplied.nextSub_idx]
        exact hidx
      · exact hI.record (by exact hidx) (hobs _)
    · rintro _ s' ⟨nai, -, hI⟩
      exact ⟨fun _ => wp_notifyIfNeedsApply (hI.dies (fun _ => id) (.refl _)) hI.remembers,
        hI.dies (fun _ => id) (.refl _)⟩

/-! ## Runs -/

/-- Entry `re` was taken for the state machine of `p` at `i`. -/
def Cluster.AppliedAt (c : Cluster n) (p : Fin n) (i : Nat) (re : Entry) : Prop :=
  (p, Obs.applies i re.header.term re.header.entrySz re.data) ∈ c.history

section Runs

variable [Externals] {opts : Fin n → Options} {c : Cluster n} {e : Event n} {p : Fin n}

omit [Externals] in
/-- A process that takes over goes on with the record it finds. -/
theorem Remembers.instanceRun {A : Nat → Entry → Prop} {w : ClusterWorld n} {R : Rules}
    {q : Fin n} {o : Options} {d : Db n} (h : AppliedUpTo A (appliedOf o d).idx d.entries)
    (hst : Started R w p (RaftServer.instanceRun q o d)) :
    Remembers A (RaftServer.instanceRun q o d) := by
  have hl := instanceRun_loaded q o d
  have hkept := hst.store.kept _ hst.store.mem
  rw [hl.opts] at hkept
  have hrec : appliedOf o (RaftServer.instanceRun q o d).store.db = appliedOf o d := by
    rw [hl.db]
    rfl
  have hla : (RaftServer.instanceRun q o d).lastApplied = appliedOf o d := hl.applied
  -- what was applied is synced, and not cut off
  have hmem : AppliedUpTo A (appliedOf o d).idx (RaftServer.instanceRun q o d).store.db.entries := by
    refine h.congr fun i hi re hre => ?_
    have hlt : i < (RaftServer.instanceRun q o d).store.db.entries.length := by
      have h1 := hkept.applied
      have h2 := hkept.synced
      rw [hrec] at h1
      omega
    rw [List.prefix_iff_eq_take.mp (instanceRun_entries q o d), List.getElem?_take_of_lt hlt, hre]
  refine ⟨?_, .of_flushed hl.flushed ?_, ?_⟩
  · rw [hla]
    exact hmem
  · rw [hl.opts, hrec]
    exact hmem
  · rw [hl.opts, hrec, hla]

omit [Externals] in
/-- A running server has not applied past its log. -/
theorem Remembers.running {A : Nat → Entry → Prop} {w : ClusterWorld n} {ri : RaftInstance n}
    (h : Remembers A ri) (hst : Stored w p ri) : RemembersNewest A ri := by
  have h1 := hst.applied
  have h2 := hst.store.synced_le
  have h3 := hst.cons.unsync_index
  exact ⟨h, by omega⟩

/-- The handler of an event: what it applies it has observed. -/
theorem Remembers.wp_handler {A : Nat → Entry → Prop} {w : ClusterWorld n}
    (h : Remembers A (c.servers e.server)) (hst : Stored w e.server (c.servers e.server)) :
    (c.handler e).wp (fun _ s => RemembersNewest (Since A s.trace) s.ri)
      (fun d => ∃ ri, RemembersNewest (Since A d.trace) ri ∧ Survives ri d.ri) (c.proc e) := by
  have hnewest := h.running hst
  by_cases happly : ∃ cb, e.action = .smApply cb
  · obtain ⟨cb, hact⟩ := happly
    have hrun : c.handler e = stateMachineApply cb := by rw [Cluster.handler, hact]
    rw [hrun]
    exact hnewest.wp_stateMachineApply hst.cons
  · have hkeeps : Cluster.Keeps c e (RemembersNewest A) :=
      { write := fun _ _ hri hup => hri.update hup
        refresh := fun _ _ _ _ hri _ _ => { hri with }
        apply := fun cb hact _ => absurd ⟨cb, hact⟩ happly
        compact := Cluster.keeps_compact
          (fun _ hri _ _ => { hri with kept := hri.kept.put (by exact hri.kept.db) true })
          fun _ _ hri _ _ => { hri with kept := hri.kept.put (by exact hri.kept.db) true } }
    refine wp_mono (hkeeps.wp_handler hnewest) (fun _ _ hs => hs.1.mono fun _ _ => .inl) ?_
    rintro d ⟨⟨ri, hri, hd⟩, -⟩
    exact ⟨ri, hri.mono fun _ _ => .inl, hd⟩

omit [Externals] in
/-- What an event observed is in the history after it. -/
theorem appliedAt_commit {s : Proc n} {ri : RaftInstance n} {i : Nat} {re : Entry}
    (h : Since (c.AppliedAt e.server) s.trace i re) :
    (c.commit e s ri).AppliedAt e.server i re := by
  rcases h with h | h
  · exact List.mem_append_left _ h
  · exact List.mem_append_right _ (List.mem_map_of_mem h)

/-- One event. -/
theorem Remembers.step {w w' : ClusterWorld n} (hw : Coupled noRules c w)
    (hw' : Coupled noRules (c.step e) w') (h : Remembers (c.AppliedAt p) (c.servers p)) :
    Remembers ((c.step e).AppliedAt p) ((c.step e).servers p) := by
  have hgrows : ∀ i re, c.AppliedAt p i re → (c.step e).AppliedAt p i re :=
    fun _ _ hmem => history_step hmem
  by_cases hp : p = e.server
  · subst hp
    by_cases hen : c.enabled e = true
    · -- a process that died is restarted on what it left behind
      have hdead : ∀ d, c.handler e (c.proc e) = .abort d →
          (∃ ri, Remembers (Since (c.AppliedAt e.server) d.trace) ri ∧ Survives ri d.ri) →
          Remembers ((c.step e).AppliedAt e.server) ((c.step e).servers e.server) := by
        rintro d hres ⟨ri, hri, hd⟩
        have hstep : c.step e = c.commit e d (Cluster.restart d.ri e.keep) := by
          simp only [Cluster.step, if_pos hen, hres]
        have hserver : (c.step e).servers e.server = Cluster.restart d.ri e.keep := by
          rw [hstep]
          exact Function.update_self _ _ _
        have hstarted := hw'.servers e.server
        rw [hserver] at hstarted ⊢
        have hkept := hri.kept.getD e.keep
        rw [← hd.store, ← hd.opts] at hkept
        refine (Remembers.instanceRun hkept hstarted).mono fun i re hsince => ?_
        rw [hstep]
        exact appliedAt_commit hsince
      by_cases hrun : (c.servers e.server).procState = .running
      · have hwp := h.wp_handler ((hw.servers e.server).ok hrun).stored
        cases hres : c.handler e (c.proc e) with
        | ok u s =>
          have hs := wp_of_ok hres hwp
          have hstep : c.step e = c.commit e s s.ri := by
            simp only [Cluster.step, if_pos hen, hres]
          have hserver : (c.step e).servers e.server = s.ri := by
            rw [hstep]
            exact Function.update_self _ _ _
          rw [hserver, hstep]
          exact hs.toRemembers.mono fun i re hsince => appliedAt_commit hsince
        | abort d =>
          obtain ⟨ri, hri, hd⟩ := wp_of_abort hres hwp
          exact hdead d hres ⟨ri, hri.toRemembers, hd⟩
      · refine hdead (c.proc e) ?_ ⟨_, h.mono fun _ _ => .inl, .refl _⟩
        rw [Cluster.handler_of_not_running hen hrun]
        rfl
    · rw [Cluster.step, if_neg hen]
      exact h
  · rw [Cluster.step_servers_of_ne hp]
    exact h.mono hgrows

/-- What a server has applied is in its log, and was observed. -/
theorem Cluster.Reach.remembers {ok : Cluster n → Event n → Prop} (h : Cluster.Reach ok opts c)
    (p : Fin n) : Remembers (c.AppliedAt p) (c.servers p) := by
  induction h with
  | init =>
    have hst : Started noRules World.init p (instanceRun p (opts p) freshDb) :=
      Coupled.init.servers p
    refine Remembers.instanceRun ?_ hst
    intro i hi
    have hnone : (appliedOf (opts p) (freshDb : Db n)).idx = -1 := by
      unfold appliedOf
      split <;> rfl
    omega
  | step e hreach he ih =>
    obtain ⟨w, hw⟩ := hreach.coupled_noRules
    obtain ⟨w', hw'⟩ := (hreach.step e he).coupled_noRules
    exact ih.step hw hw'

/-! ## Acceptance -/

/-- The synced log of every newly elected leader has all entries that were committed in an earlier
term. -/
def Cluster.CompleteLeaders (c : Cluster n) : Prop :=
  ∀ q r t u idx log l, (q, Obs.commits .leader t idx log) ∈ c.history →
    (r, Obs.leads u l) ∈ c.history → t < u → log.take (idx + 1).toNat <+: l

/-- The second observation is no election of a later leader that lacks what the first committed. -/
def inherits : Obs n → Obs n → Bool
  | .commits .leader t idx log, .leads u l => t ≥ u || (log.take (idx + 1).toNat).isPrefixOf l
  | _, _ => true

instance (c : Cluster n) : Decidable c.CompleteLeaders :=
  decidable_of_iff (∀ x ∈ c.history, ∀ y ∈ c.history, inherits x.2 y.2 = true) <| by
    constructor
    · intro h q r t u idx log l hc hl hlt
      have hin := h _ hc _ hl
      simp only [inherits, Bool.or_eq_true, decide_eq_true_eq, List.isPrefixOf_iff_prefix] at hin
      exact hin.resolve_left (not_le.mpr hlt)
    · rintro h ⟨q, o⟩ hc ⟨r, o'⟩ hl
      cases o with
      | commits state t idx log =>
        cases o' with
        | leads u l =>
          cases state with
          | leader =>
            simp only [inherits, Bool.or_eq_true, decide_eq_true_eq, List.isPrefixOf_iff_prefix]
            exact (le_or_gt u t).imp_right fun hlt => h q r t u idx log l hc hl hlt
          | _ => rfl
        | _ => cases state <;> rfl
      | _ => rfl

/-- A leader that accepts requests has applied all that the leaders before it have committed. -/
theorem acceptance_linearizable (h : Cluster.Reach Cluster.anyEvent opts c)
    (hcomplete : c.CompleteLeaders)
    {s s' : Proc n} (hs : s.ri = c.servers p) {fresh : Bool}
    (haccept : mayAcceptClientRequest fresh s = .ok (.ok ()) s') {q : Fin n} {t idx : Int}
    {log : List EntryCore} (hcommit : (q, Obs.commits .leader t idx log) ∈ c.history)
    (hlower : t < (c.servers p).logHdr.term) {i : Nat} (hi : (i : Int) ≤ idx) :
    ∃ x, log[i]? = some x ∧ (i : Int) < (c.servers p).lastApplied.idx ∧
      (p, Obs.applies i x.term x.entrySz x.data) ∈ c.history := by
  have hacc : Accepts (c.servers p) := by
    have hwp : (mayAcceptClientRequest fresh).wp (fun rc _ => rc = .ok () → Accepts s.ri)
        (fun _ => True) s :=
      wp_mayAcceptClientRequest (fun _ _ => trivial) (fun _ _ h => (by cases h)) fun h _ => h
    have hok := wp_of_ok haccept hwp rfl
    rw [← hs]
    exact hok
  have hlead : (c.servers p).state = .leader := by
    simpa [RaftInstance.isLeader] using hacc.leads
  obtain ⟨w, hw⟩ := h.coupled_noRules
  have hrun : (c.servers p).procState = .running := by
    by_contra hdown
    exact (h.passive_of_down hdown).leader hlead
  have hok := (hw.servers p).ok hrun
  -- the log it was elected with
  obtain ⟨l, hstood, hinit⟩ := (hok.role.leader hlead).init
  obtain ⟨hled, hllog⟩ := hw.reach.basic.leading p (hok.role.leads.mp hlead)
  obtain ⟨l', hl'⟩ := hw.led p _ hled
  obtain rfl : l = l' := Option.some.inj (hstood.symm.trans (hw.history _ hl').2)
  obtain ⟨-, -, hlen, -⟩ := hw.history _ hcommit
  have hpre := hcomplete q p t _ idx log l hcommit hl' (by rw [← hok.stored.term]; exact hlower)
  have hlt : i < log.length := by omega
  have hget : l[i]? = some log[i] := by
    refine getElem_of_isPrefix hpre ?_
    rw [List.getElem?_take_of_lt (by omega)]
    exact List.getElem?_eq_getElem hlt
  -- which is still there, and applied
  have hbelow : (i : Int) < (c.servers p).lastApplied.idx := by
    have h1 := (List.getElem?_eq_some_iff.mp hget).1
    have h2 := hacc.applied
    omega
  obtain ⟨re, hre, happ⟩ := (h.remembers p).mem i (le_of_lt hbelow)
  obtain ⟨l₀, tail, hst₀, hsplit, -⟩ := hw.reach.basic.led_stood p _ hled
  obtain rfl : l = l₀ := Option.some.inj (hstood.symm.trans hst₀)
  have hcore : re.core = log[i] := by
    have h1 := hok.stored.store.getElem hre
    rw [← hllog, hsplit, List.getElem?_append_left (List.getElem?_eq_some_iff.mp hget).1, hget] at h1
    exact (Option.some.inj h1).symm
  refine ⟨log[i], List.getElem?_eq_getElem hlt, hbelow, ?_⟩
  rw [← hcore]
  exact happ

end Runs

/-- A fresh leader that has applied an entry of its term accepts. -/
theorem RaftServer.Accepts.accepted {ri : RaftInstance n} (h : Accepts ri)
    (hboot : ri.procState ≠ .booting) :
    ∃ s s', s.ri = ri ∧ mayAcceptClientRequest true s = .ok (.ok ()) s' := by
  have hwp : (mayAcceptClientRequest true).wp (fun rc _ => rc = .ok ()) (fun _ => False)
      ⟨ri, [], [], none⟩ :=
    wp_mayAcceptClientRequest (fun _ hne => hne h.term) (fun _ hdeny => absurd h (hdeny hboot rfl))
      fun _ => rfl
  obtain ⟨rc, s', hres, rfl⟩ := exists_ok_of_wp hwp
  exact ⟨_, s', rfl, hres⟩

/-- Server 1 is elected after server 0 has committed, and its marker is committed and applied. -/
def secondLeaderAccepts : List (Event 3) :=
  servedThenElected ++ [.send 1, .deliver 0 24, .sync 1, .sync 0, .deliver 1 26, .send 0,
    .deliver 1 27, .apply 1]

/-- The second leader has applied the request of the first. -/
theorem acceptance_linearizable_secondLeaderAccepts :
    ∃ x, [(⟨1, 1, [0], true, []⟩ : EntryCore), ⟨1, 1, [2], false, [7, 8]⟩][1]? = some x ∧
      ((1 : Nat) : Int) < ((afterRun secondLeaderAccepts).servers 1).lastApplied.idx ∧
      (1, Obs.applies (1 : Nat) x.term x.entrySz x.data) ∈ (afterRun secondLeaderAccepts).history := by
  have hc : (0, Obs.commits .leader 1 1 [⟨1, 1, [0], true, []⟩, ⟨1, 1, [2], false, [7, 8]⟩]) ∈
      (afterRun secondLeaderAccepts).history := by decide +kernel
  have hcomplete : (afterRun secondLeaderAccepts).CompleteLeaders := by decide +kernel
  have hterm : (1 : Int) < ((afterRun secondLeaderAccepts).servers 1).logHdr.term := by
    decide +kernel
  have hacc : Accepts ((afterRun secondLeaderAccepts).servers 1) :=
    ⟨by decide +kernel, by decide +kernel, by decide +kernel⟩
  have hboot : ((afterRun secondLeaderAccepts).servers 1).procState ≠ .booting := by
    decide +kernel
  obtain ⟨s, s', hs, haccept⟩ := hacc.accepted hboot
  exact @acceptance_linearizable 3 sampleExternals _ _ 1 (reach_afterRun _) hcomplete _ _ hs _
    haccept 0 1 1 _ hc hterm 1 (by omega)

end NiovaRaft
