import NiovaRaft.Spec.Updates

/-!
# What a start writes

A process that starts loads the log header, caches the headers of the entries it scans and cuts the
log behind the last of them.  Everything else is as `instanceInit` made it from the backend.
-/

namespace NiovaRaft

open Base Base.Handler Relation

variable {n : Nat}

/-! ## What a crash may leave behind -/

/-- Everything that a crash may leave behind satisfies `P`, and the contents are among it. -/
structure Store.Keeps (P : Db n → Prop) (st : Store n) : Prop where
  mem : st.db ∈ st.recoverable
  all : ∀ d ∈ st.recoverable, P d

namespace Store.Keeps

variable {P Q : Db n → Prop} {st : Store n}

theorem db (h : st.Keeps P) : P st.db := h.all _ h.mem

theorem mono (h : st.Keeps P) (hpq : ∀ d, P d → Q d) : st.Keeps Q :=
  ⟨h.mem, fun d hd => hpq d (h.all d hd)⟩

theorem put (h : st.Keeps P) {db : Db n} (hdb : P db) (flushed : Bool) :
    (st.put db flushed).Keeps P := by
  cases flushed with
  | true => exact ⟨by simp [Store.put], by simpa [Store.put] using hdb⟩
  | false =>
    refine ⟨by simp [Store.put], fun d hd => ?_⟩
    have hd : d ∈ st.recoverable ∨ d = db := by simpa [Store.put] using hd
    rcases hd with hd | rfl
    · exact h.all d hd
    · exact hdb

/-- A synced backend leaves behind what it holds. -/
theorem of_flushed (h : st.recoverable = [st.db]) (hdb : P st.db) : st.Keeps P := by
  refine ⟨by rw [h]; simp, fun d hd => ?_⟩
  rw [h] at hd
  obtain rfl := List.mem_singleton.mp hd
  exact hdb

/-- What a killed process finds. -/
theorem getD (h : st.Keeps P) (keep : Nat) : P (st.recoverable.getD keep st.db) := by
  rw [List.getD_eq_getElem?_getD]
  cases hget : st.recoverable[keep]? with
  | none => exact h.db
  | some d => exact h.all d (List.mem_of_getElem? hget)

end Store.Keeps

/-! ## The writes of a start -/

/-- One write of a process that starts. -/
inductive Load (ri : RaftInstance n) : RaftInstance n → Prop
  | header : Load ri { ri with logHdr := ri.store.db.hdr }
  | newest (sync unsync : EntryHeader) :
      Load ri { ri with newestSync := sync, newestUnsync := unsync }
  | truncate (k : Nat) :
      Load ri { ri with store := ri.store.put (ri.store.db.truncate k) true }
  | enter : Load ri { ri with
      procState := .running, state := .follower, followerReason := .leaderAlreadyPresent }

/-- Started in `s`, the function makes the writes of `Load` and no others. -/
abbrev Loads {α : Type} (m : Server n α) (s : Proc n) : Prop :=
  m.Within Proc.ri Load (fun ri d => d = ri) s

/-- An instance of server `p` that was started on `d`. -/
structure LoadedFrom (p : Fin n) (o : Options) (d : Db n) (ri : RaftInstance n) : Prop where
  self : ri.self = p
  opts : ri.opts = o
  hdr : ri.logHdr = d.hdr
  state : ri.state ≠ .leader
  commit : ri.commitIdx = -1
  applied : ri.lastApplied = (RaftServer.instanceInit p o d).lastApplied
  checkpoint : ri.checkpointLastIdx = (RaftServer.instanceInit p o d).checkpointLastIdx
  lowest : ri.lowestIdx = (RaftServer.instanceInit p o d).lowestIdx
  db : ri.store.db = { d with entries := ri.store.db.entries }
  flushed : ri.store.recoverable = [ri.store.db]

/-- No write of a start but the header's depends on more than that. -/
theorem LoadedFrom.load {p : Fin n} {o : Options} {d : Db n} {ri ri' : RaftInstance n}
    (h : LoadedFrom p o d ri) (hload : Load ri ri') : LoadedFrom p o d ri' := by
  have hhdr : ri.store.db.hdr = d.hdr := by rw [h.db]
  cases hload with
  | header => exact { h with hdr := hhdr }
  | newest sync unsync => exact { h with }
  | truncate k =>
    refine { h with db := ?_, flushed := rfl }
    simp only [Store.put, Db.truncate]
    rw [h.db]
  | enter => exact { h with state := by simp }

namespace RaftServer

variable {s : Proc n} {α : Type}

theorem loads_getRi_bind {f : RaftInstance n → Server n α} (h : Loads (f s.ri) s) :
    Loads (getRi >>= f) s :=
  h

theorem loads_modifyRi {f : RaftInstance n → RaftInstance n} (h : Load s.ri (f s.ri)) :
    Loads (modifyRi f) s :=
  .single h

theorem loads_of_wp {m : Server n α}
    (h : m.wp (fun _ s' => ReflTransGen Load s.ri s'.ri)
      (fun d => ∃ ri, ReflTransGen Load s.ri ri ∧ d.ri = ri) s) : Loads m s :=
  h

theorem loads_entryHeaderReadByStore {idx : Int} : Loads (entryHeaderReadByStore idx) s :=
  loads_of_wp (wp_entryHeaderReadByStore ⟨_, .refl, rfl⟩ (fun _ => .refl) fun _ _ _ _ => .refl)

theorem loads_updateNewestEntryHdr {reh : EntryHeader} {force : Bool} :
    Loads (updateNewestEntryHdr reh .all force) s := by
  refine .ite (fun _ => .pure) fun _ => loads_getRi_bind ?_
  refine .bind (.whenever fun _ => .assert_bind (fun _ => rfl) fun _ => ?_) fun _ s₁ _ => ?_
  · exact loads_modifyRi (.newest _ _)
  · refine .whenever fun _ => .assert_bind (fun _ => rfl) fun _ => ?_
    exact loads_modifyRi (.newest _ _)

theorem loads_entryNextEntryIsValid {reh : EntryHeader} : Loads (entryNextEntryIsValid reh) s :=
  .ite (fun _ => .pure) fun _ => loads_getRi_bind (.fatalIf_bind (fun _ => rfl) fun _ => .pure)

theorem loads_entriesScanInternal {start : Int} (count : Nat) (i : Int) :
    Loads (entriesScanInternal start count i) s := by
  induction count generalizing i s with
  | zero => exact .pure
  | succ count ih =>
    refine .bind loads_entryHeaderReadByStore fun reh s₁ _ => ?_
    cases reh with
    | error rc => exact .pure
    | ok reh =>
      have hgo : ∀ (valid : Bool) (s₂ : Proc n), Loads (if valid = false then
          (pure (.error .EINVAL) : Server n (Except Errno Unit)) else do
            updateNewestEntryHdr reh .all false
            entriesScanInternal start count (i + 1)) s₂ := fun valid s₂ =>
        .ite (fun _ => .pure) fun _ => .bind loads_updateNewestEntryHdr fun _ _ _ => ih _
      refine .ite (fun _ => ?_) fun _ => ?_
      · exact .bind loads_entryNextEntryIsValid fun valid s₂ _ => hgo valid s₂
      · exact hgo true s₁

theorem loads_entriesScan : Loads (entriesScan : Server n (Except Errno Unit)) s := by
  refine loads_getRi_bind (.ite (fun _ => .pure) fun _ => ?_)
  refine .ite (fun _ => ?_) fun _ => loads_entriesScanInternal _ _
  refine .bind (loads_entriesScanInternal _ _) fun rc s₁ _ => ?_
  refine .bind (.whenever fun _ => loads_modifyRi (.newest _ _)) fun _ s₂ _ => ?_
  cases rc with
  | error rc => exact .pure
  | ok u => exact loads_entriesScanInternal _ _

theorem loads_logTruncate : Loads (logTruncate : Server n Unit) s := by
  refine loads_getRi_bind (.assert_bind (fun _ => rfl) fun _ => loads_of_wp ?_)
  exact wp_durable (fun _ => ⟨_, .refl, rfl⟩) fun _ _ => .single (.truncate _)

/-- The part of a start that comes after the header was loaded. -/
theorem loads_instanceStartup {s : Proc n} : Loads (do
    let rc ← (do
      let rc ← entriesScan
      whenever (rc.isOk = true) logTruncate
      pure rc)
    whenever (rc.isOk = true)
      (modifyRi fun ri =>
        { ri with
          procState := .running, state := .follower, followerReason := .leaderAlreadyPresent })
    pure rc : Server n (Except Errno Unit)) s := by
  refine .bind (.bind loads_entriesScan fun rc s₁ _ => ?_) fun rc s₂ _ => ?_
  · exact .bind (.whenever fun _ => loads_logTruncate) fun _ _ _ => .pure
  · exact .bind (.whenever fun _ => loads_modifyRi .enter) fun _ _ _ => .pure

/-- What the writes of a start keep holds of a started process, whatever comes of it. -/
theorem instanceRun_invariant {p : Fin n} {o : Options} {d : Db n} {P : RaftInstance n → Prop}
    (hinit : P { instanceInit p o d with logHdr := d.hdr })
    (hload : ∀ ri ri', P ri → Load ri ri' → P ri')
    (hdown : ∀ ri, P ri → P { ri with procState := .shutdown }) : P (instanceRun p o d) := by
  set s₀ : Proc n := ⟨{ instanceInit p o d with logHdr := d.hdr }, [], [], none⟩
  have hrest := loads_instanceStartup.invariant hload (show P s₀.ri from hinit)
  have hwp : instanceStartup.wp (fun _ s' => P s'.ri) (fun s' => P s'.ri)
      (⟨instanceInit p o d, [], [], none⟩ : Proc n) := by
    refine wp_mono (Q := fun _ s' => P s'.ri) (D := fun s' => ∃ ri, P ri ∧ s'.ri = ri) ?_
      (fun _ _ h => h) ?_
    · rw [instanceStartup, logLoad, wp_bind, wp_bind, headerLoad, wp_modifyRi]
      rwa [wp_bind] at hrest
    · rintro s' ⟨ri, hri, rfl⟩
      exact hri
  unfold instanceRun
  cases hrun : instanceStartup (⟨instanceInit p o d, [], [], none⟩ : Proc n) with
  | ok rc s' =>
    have h := wp_of_ok hrun hwp
    cases rc with
    | ok u => exact h
    | error rc => exact hdown _ h
  | abort s' =>
    have h := wp_of_abort hrun hwp
    exact hdown _ h

/-- Whatever comes of it, a process that starts has loaded its backend. -/
theorem instanceRun_loaded (p : Fin n) (o : Options) (d : Db n) :
    LoadedFrom p o d (instanceRun p o d) := by
  refine instanceRun_invariant ?_ (fun _ _ h hload => h.load hload) fun _ h => { h with }
  exact ⟨rfl, rfl, rfl, by simp [instanceInit], rfl, rfl, rfl, rfl, rfl, rfl⟩

/-- A process that starts finds its entries, and may cut off the last ones. -/
theorem instanceRun_entries (p : Fin n) (o : Options) (d : Db n) :
    (instanceRun p o d).store.db.entries <+: d.entries := by
  refine instanceRun_invariant (P := fun ri => ri.store.db.entries <+: d.entries)
    (List.prefix_refl _) (fun ri ri' h hload => ?_) fun _ h => h
  cases hload with
  | truncate k => exact (List.take_prefix k _).trans h
  | header => exact h
  | newest => exact h
  | enter => exact h

end RaftServer

/-! ## The newest headers of a start -/

/-- A header is null, or that of the entry in the backend. -/
def EntryHeader.HeldIn (reh : EntryHeader) (d : Db n) : Prop :=
  0 ≤ reh.index → ∃ re, d.entries[reh.index.toNat]? = some re ∧ re.header = reh

/-- An entry that is written behind the newest one is where its index says. -/
theorem EntryHeader.HeldIn.getElem_write {d : Db n} {newest : EntryHeader} (h : newest.HeldIn d)
    {re : Entry} (hidx : 0 ≤ newest.index + 1) (hre : re.header.index = newest.index + 1) (i : Nat) :
    (d.write re).entries[i]? = if i = (newest.index + 1).toNat then some re else d.entries[i]? := by
  have hlen : (newest.index + 1).toNat ≤ d.entries.length := by
    by_cases h0 : 0 ≤ newest.index
    · obtain ⟨re', hre', -⟩ := h h0
      have hlt := (List.getElem?_eq_some_iff.mp hre').1
      omega
    · omega
  rw [Db.write, hre]
  dsimp only
  split
  · rename_i hlt
    rw [List.getElem?_set]
    simp only [hlt, if_true, eq_comm]
  · rename_i hge
    have heq : (newest.index + 1).toNat = d.entries.length := by omega
    rw [heq]
    split
    · rename_i hi
      rw [hi, List.getElem?_concat_length]
    · rename_i hi
      rcases Nat.lt_or_gt_of_ne hi with hlt | hgt
      · rw [List.getElem?_append_left hlt]
      · rw [List.getElem?_eq_none (by rw [List.length_append, List.length_singleton]; omega),
          List.getElem?_eq_none (by omega)]

/-- Older headers are still held. -/
theorem EntryHeader.HeldIn.write {d : Db n} {newest reh : EntryHeader} (hreh : reh.HeldIn d)
    (h : newest.HeldIn d) {re : Entry} (hle : reh.index ≤ newest.index)
    (hre : re.header.index = newest.index + 1) : reh.HeldIn (d.write re) := by
  intro h0
  obtain ⟨re', hre', hheader⟩ := hreh h0
  refine ⟨re', ?_, hheader⟩
  rw [h.getElem_write (by omega) hre, if_neg (by omega)]
  exact hre'

/-- A header is held by a log that is cut behind it. -/
theorem EntryHeader.HeldIn.truncate {d : Db n} {reh : EntryHeader} (h : reh.HeldIn d) {idx : Int}
    (hle : reh.index ≤ idx) : reh.HeldIn (d.truncate (idx + 1).toNat) := by
  intro h0
  obtain ⟨re, hre, hheader⟩ := h h0
  refine ⟨re, ?_, hheader⟩
  show (d.entries.take (idx + 1).toNat)[reh.index.toNat]? = some re
  rw [List.getElem?_take_of_lt (by omega)]
  exact hre

namespace RaftServer

variable {s : Proc n}

/-- The two newest headers agree, as they do in a start, and name an entry. -/
structure Scanned (ri : RaftInstance n) : Prop where
  synced : ri.newestSync = ri.newestUnsync
  least : -1 ≤ ri.newestUnsync.index
  held : ri.newestUnsync.HeldIn ri.store.db

theorem Scanned.of_null {ri : RaftInstance n} (h : ri.newestSync = EntryHeader.null)
    (h' : ri.newestUnsync = EntryHeader.null) : Scanned ri := by
  refine ⟨h.trans h'.symm, ?_, fun h0 => ?_⟩
  · rw [h']
    decide
  · rw [h'] at h0
    exact absurd h0 (by decide)

theorem le_updateHdr (reh tgt : EntryHeader) : tgt.index ≤ (updateHdr false reh tgt).index := by
  unfold updateHdr
  split
  · rename_i h
    rcases h with h | h
    · cases h
    · exact h.le
  · exact le_refl _

theorem heldIn_updateHdr {d : Db n} {reh tgt : EntryHeader} (hreh : reh.HeldIn d)
    (htgt : tgt.HeldIn d) : (updateHdr false reh tgt).HeldIn d := by
  unfold updateHdr
  split
  · exact hreh
  · exact htgt

theorem wp_updateNewestEntryHdr_scanned {reh : EntryHeader} (h : Scanned s.ri)
    (hreh : reh.HeldIn s.ri.store.db) : (updateNewestEntryHdr reh .all false).wp
      (fun _ s' => Scanned s'.ri) (fun d => d.ri.newestUnsync.HeldIn d.ri.store.db) s := by
  obtain ⟨hsynced, hleast, hheld⟩ := h
  simp only [updateNewestEntryHdr, wp_ite, wp_pure, wp_bind, wp_getRi, wp_whenever, wp_assert,
    wp_modifyRi]
  refine ⟨fun _ => ⟨hsynced, hleast, hheld⟩, fun _ => ⟨fun _ => ⟨fun _ => ⟨fun _ => ⟨fun _ => ?_,
    fun _ => hheld⟩, fun hno => absurd (by simp) hno⟩, fun _ => hheld⟩,
    fun hno => absurd (by simp) hno⟩⟩
  exact ⟨congrArg (updateHdr false reh) hsynced, hleast.trans (le_updateHdr _ _), heldIn_updateHdr hreh hheld⟩

theorem wp_entriesScanInternal_scanned {start : Int} (count : Nat) (i : Int) (h : Scanned s.ri) :
    (entriesScanInternal start count i).wp (fun _ s' => Scanned s'.ri)
      (fun d => d.ri.newestUnsync.HeldIn d.ri.store.db) s := by
  induction count generalizing i s with
  | zero => exact h
  | succ count ih =>
    rw [entriesScanInternal, wp_bind]
    refine wp_entryHeaderReadByStore_validated h.held (fun rc _ => h) fun re h0 _ hre hidx => ?_
    have hheld : re.header.HeldIn s.ri.store.db := fun _ => ⟨re, by rw [hidx]; exact hre, rfl⟩
    have hgo := wp_mono (wp_updateNewestEntryHdr_scanned h hheld) (fun _ s' hs' => ih (i + 1) hs')
      fun _ => id
    simp only [wp_bind, wp_ite, wp_pure]
    refine ⟨fun _ => ?_, fun _ => ⟨fun _ => h, fun _ => hgo⟩⟩
    simp only [entryNextEntryIsValid, wp_ite, wp_pure, wp_bind, wp_getRi, wp_fatalIf]
    exact ⟨fun _ => ⟨fun _ => h, fun _ => hgo⟩, fun _ => ⟨fun _ => h.held, fun _ =>
      ⟨fun _ => h, fun _ => hgo⟩⟩⟩

theorem wp_entriesScan_scanned (h : Scanned s.ri) :
    (entriesScan : Server n (Except Errno Unit)).wp (fun _ s' => Scanned s'.ri)
      (fun d => d.ri.newestUnsync.HeldIn d.ri.store.db) s := by
  simp only [entriesScan, wp_bind, wp_getRi, wp_ite, wp_pure]
  refine ⟨fun _ => h, fun _ => ⟨fun _ => ?_, fun _ => wp_entriesScanInternal_scanned _ _ h⟩⟩
  refine wp_mono (wp_entriesScanInternal_scanned _ _ h) (fun rc s' hs' => ?_) fun _ => id
  simp only [wp_whenever, initializeNewestEntryHdr, wp_modifyRi]
  cases rc with
  | error rc => exact ⟨fun _ => .of_null rfl rfl, fun _ => hs'⟩
  | ok u =>
    refine ⟨fun _ => wp_entriesScanInternal_scanned _ _ (.of_null rfl rfl), fun _ => ?_⟩
    exact wp_entriesScanInternal_scanned _ _ hs'

theorem wp_logTruncate_scanned (h : Scanned s.ri) : (logTruncate : Server n Unit).wp
    (fun _ s' => Scanned s'.ri) (fun d => d.ri.newestUnsync.HeldIn d.ri.store.db) s := by
  simp only [logTruncate, wp_bind, wp_getRi, wp_assert]
  refine ⟨fun _ => wp_durable (fun _ => h.held) fun fuse _ => ⟨h.synced, h.least, ?_⟩, fun _ => h.held⟩
  have hle : s.ri.newestUnsync.index ≤ s.ri.newestSync.index := by rw [h.synced]
  exact h.held.truncate hle

theorem wp_logLoad_scanned (h : s.ri.newestSync = EntryHeader.null)
    (h' : s.ri.newestUnsync = EntryHeader.null) : (logLoad : Server n (Except Errno Unit)).wp
      (fun _ s' => Scanned s'.ri) (fun d => d.ri.newestUnsync.HeldIn d.ri.store.db) s := by
  simp only [logLoad, headerLoad, wp_bind, wp_modifyRi]
  refine wp_mono (wp_entriesScan_scanned (.of_null h h')) (fun rc s' hs' => ?_) fun _ => id
  simp only [wp_whenever, wp_pure]
  exact ⟨fun _ => wp_logTruncate_scanned hs', fun _ => hs'⟩

theorem wp_instanceStartup_scanned (p : Fin n) (o : Options) (d : Db n) : instanceStartup.wp
    (fun _ s' => Scanned s'.ri) (fun s' => s'.ri.newestUnsync.HeldIn s'.ri.store.db)
    (⟨instanceInit p o d, [], [], none⟩ : Proc n) := by
  rw [instanceStartup, wp_bind]
  refine wp_mono (wp_logLoad_scanned rfl rfl) (fun rc s' hs' => ?_) fun _ => id
  simp only [wp_bind, wp_whenever, wp_modifyRi, wp_pure]
  exact ⟨fun _ => ⟨hs'.synced, hs'.least, hs'.held⟩, fun _ => hs'⟩

/-- Whatever comes of a start, the newest header is that of an entry, and a process that runs has
synced it. -/
theorem instanceRun_scanned (p : Fin n) (o : Options) (d : Db n) :
    (instanceRun p o d).newestUnsync.HeldIn (instanceRun p o d).store.db ∧
      ((instanceRun p o d).procState = .running → Scanned (instanceRun p o d)) := by
  unfold instanceRun
  cases hrun : instanceStartup (⟨instanceInit p o d, [], [], none⟩ : Proc n) with
  | ok rc s' =>
    have h := wp_of_ok hrun (wp_instanceStartup_scanned p o d)
    cases rc with
    | ok u => exact ⟨h.held, fun _ => h⟩
    | error rc => exact ⟨h.held, fun _ => ⟨h.synced, h.least, h.held⟩⟩
  | abort s' =>
    have h := wp_of_abort hrun (wp_instanceStartup_scanned p o d)
    exact ⟨h, fun hdown => by cases hdown⟩

end RaftServer

end NiovaRaft
