import NiovaRaft.Spec.Updates

/-!
# The requests of a leader

The functions below `raft_server_append_entry_sender`.  For each peer that is sent to the leader
refreshes the slot and builds a request from it.  The steps on the way are those of `Sending`: no
other part of the instance changes, so that the entries of a request are those the leader has.
-/

namespace NiovaRaft

variable {n : Nat}

/-! ## Slots -/

namespace RaftInstance

theorem setFollowerInfo_self (ri : RaftInstance n) (q : Fin n) :
    ri.setFollowerInfo q (ri.followerInfo q) = ri := by
  simp [setFollowerInfo, followerInfo]

@[simp] theorem setFollowerInfo_set (ri : RaftInstance n) (q : Fin n) (a b : FollowerInfo) :
    (ri.setFollowerInfo q a).setFollowerInfo q b = ri.setFollowerInfo q b := by
  simp [setFollowerInfo]

@[simp] theorem followerInfo_set (ri : RaftInstance n) (q : Fin n) (a : FollowerInfo) :
    (ri.setFollowerInfo q a).followerInfo q = a := by
  simp [setFollowerInfo, followerInfo]

theorem followerInfo_set_of_ne (ri : RaftInstance n) {q q' : Fin n} (a : FollowerInfo)
    (h : q' ≠ q) : (ri.setFollowerInfo q a).followerInfo q' = ri.followerInfo q' := by
  simp [setFollowerInfo, followerInfo, Function.update_of_ne h]

end RaftInstance

open RaftInstance

/-- Nothing but the slots of the two instances differs. -/
def SameButSlots (ri ri' : RaftInstance n) : Prop :=
  ri' = { ri with leader := { ri.leader with rfi := ri'.leader.rfi } }

theorem SameButSlots.refl (ri : RaftInstance n) : SameButSlots ri ri := rfl

theorem SameButSlots.trans {ri ri' ri'' : RaftInstance n} (h : SameButSlots ri ri')
    (h' : SameButSlots ri' ri'') : SameButSlots ri ri'' := by
  unfold SameButSlots at h h' ⊢
  rw [h', h]

theorem Sending.sameButSlots {v v' : Visible n} (h : Sending v v') : SameButSlots v.1 v'.1 := by
  cases h with
  | slot q rfi => rfl
  | request q m => rfl

/-- The request with an entry. -/
def AppendEntriesRequestMsg.withEntry (m : AppendEntriesRequestMsg) (re : Entry) :
    AppendEntriesRequestMsg :=
  { m with
    entriesSz := re.header.dataSize
    leaderChangeMarker := re.header.leaderChangeMarker
    numEntries := re.header.numEntries
    sizeArr := re.header.entrySz
    entries := if re.header.dataSize = 0 then m.entries else re.data.take re.header.dataSize }

theorem PreparedFrom.withEntry {ri : RaftInstance n} {rfi : FollowerInfo}
    {m : AppendEntriesRequestMsg} (h : PreparedFrom ri rfi m) (re : Entry) :
    PreparedFrom ri rfi (m.withEntry re) :=
  ⟨h.leaderTerm, h.commitIndex, h.lowestIndex, h.prevLogIndex, h.nonneg, h.refreshed, h.prev,
    h.next⟩

theorem carriesEntry_withEntry {m : AppendEntriesRequestMsg} {re : Entry} (h : m.entries = []) :
    CarriesEntry (m.withEntry re) re :=
  ⟨rfl, rfl, rfl, rfl, by rw [AppendEntriesRequestMsg.withEntry, h]⟩

namespace RaftServer

open Base Base.Handler Relation

variable {s : Proc n} {D : Proc n → Prop} {peer : Fin n}

/-! ## The refresh of a slot -/

/-- The entry before the next index is cached, read, or cannot be read. -/
theorem wp_refreshPrev {Q : Except Errno Unit → Proc n → Prop} (hD : D s)
    (hcached : 0 ≤ (s.ri.followerInfo peer).prevIdxTerm → Q (.ok ()) s)
    (hread : ∀ re, (s.ri.followerInfo peer).prevIdxTerm < 0 →
      0 < (s.ri.followerInfo peer).nextIdx →
      s.ri.lowestIdx ≤ (s.ri.followerInfo peer).nextIdx - 1 →
      (s.ri.followerInfo peer).nextIdx - 1 ≤ s.ri.newestUnsync.index →
      s.ri.store.db.entries[((s.ri.followerInfo peer).nextIdx - 1).toNat]? = some re →
      0 ≤ re.header.term →
      Q (.ok ()) { s with ri := s.ri.setFollowerInfo peer { s.ri.followerInfo peer with
        prevIdxTerm := re.header.term, prevIdxCrc := re.header.crc } })
    (hfailed : ∀ rc, (s.ri.followerInfo peer).prevIdxTerm < 0 →
      ReadFails s.ri ((s.ri.followerInfo peer).nextIdx - 1) rc →
      Q (.error rc) { s with ri := s.ri.setFollowerInfo peer { s.ri.followerInfo peer with
        prevIdxTerm := 0, prevIdxCrc := 0 } }) :
    (refreshPrev peer).wp Q D s := by
  simp only [refreshPrev, wp_bind, wp_getRi, wp_ite, wp_pure, wp_assert]
  refine ⟨hcached, fun hneg => ⟨fun _ => ⟨fun hle => ?_, fun _ => hD⟩, fun _ => hD⟩⟩
  have hprev : (s.ri.followerInfo peer).prevIdxTerm < 0 := not_le.mp hneg
  refine wp_entryHeaderReadByStore_validated hD (fun rc hrc => ?_) fun re h0 hlow hre _ => ?_
  · simp only [wp_bind, wp_modifyRi, wp_pure]
    exact hfailed rc hprev hrc
  · simp only [wp_bind, wp_fatalIf, wp_modifyRi, wp_pure]
    have hpos : 0 < (s.ri.followerInfo peer).nextIdx := by omega
    exact ⟨fun _ => hD, fun hterm => hread re hprev hpos hlow hle hre (not_lt.mp hterm)⟩

/-- The entry at the next index is read again whenever the leader has one. -/
theorem wp_refreshCurrent {Q : Except Errno Unit → Proc n → Prop} (hD : D s)
    (hpast : s.ri.newestUnsync.index < (s.ri.followerInfo peer).nextIdx → Q (.ok ()) s)
    (hread : ∀ re, s.ri.lowestIdx ≤ (s.ri.followerInfo peer).nextIdx →
      (s.ri.followerInfo peer).nextIdx ≤ s.ri.newestUnsync.index →
      s.ri.store.db.entries[(s.ri.followerInfo peer).nextIdx.toNat]? = some re →
      Q (.ok ()) { s with ri := s.ri.setFollowerInfo peer { s.ri.followerInfo peer with
        currentIdxTerm := re.header.term, currentIdxCrc := re.header.crc } })
    (hfailed : ∀ rc, (s.ri.followerInfo peer).nextIdx ≤ s.ri.newestUnsync.index →
      ReadFails s.ri (s.ri.followerInfo peer).nextIdx rc →
      Q (.error rc) { s with ri := s.ri.setFollowerInfo peer { s.ri.followerInfo peer with
        currentIdxTerm := -1, currentIdxCrc := 0 } }) :
    (refreshCurrent peer).wp Q D s := by
  simp only [refreshCurrent, wp_bind, wp_getRi, wp_ite, wp_pure]
  refine ⟨hpast, fun hge => ?_⟩
  have hle : (s.ri.followerInfo peer).nextIdx ≤ s.ri.newestUnsync.index := not_lt.mp hge
  refine wp_entryHeaderReadByStore_validated hD (fun rc hrc => ?_) fun re _ hlow hre _ => ?_
  · simp only [wp_bind, wp_modifyRi, wp_pure]
    exact hfailed rc hle hrc
  · simp only [wp_bind, wp_modifyRi, wp_pure]
    exact hread re hlow hle hre

theorem sends_getRi_bind {α : Type} {f : RaftInstance n → Server n α} (h : Sends (f s.ri) s) :
    Sends (getRi >>= f) s :=
  h

theorem sends_assert_bind {α : Type} {c : Prop} [Decidable c] {f : Unit → Server n α}
    (h : c → Sends (f ()) s) : Sends (Handler.assert c >>= f) s :=
  .assert_bind .refl h

theorem sends_of_wp {α : Type} {m : Server n α}
    (h : m.wp (fun _ s' => ReflTransGen Sending s.visible s'.visible)
      (fun d => ∃ v, ReflTransGen Sending s.visible v ∧ LeftBehind v d.visible) s) : Sends m s :=
  h

theorem sends_refreshPrev (hne : peer ≠ s.ri.self) : Sends (refreshPrev peer) s :=
  sends_of_wp (wp_refreshPrev ⟨_, .refl, .refl _⟩ (fun _ => .refl)
    (fun re hprev hpos hlow hle hre _ =>
      .single (.slot peer _ hne (.prevRead re hpos hprev hlow hle hre)))
    fun rc hprev hrc => .single (.slot peer _ hne (.prevFailed rc hprev hrc)))

theorem sends_refreshCurrent (hne : peer ≠ s.ri.self) : Sends (refreshCurrent peer) s :=
  sends_of_wp (wp_refreshCurrent ⟨_, .refl, .refl _⟩ (fun _ => .refl)
    (fun re hlow hle hre => .single (.slot peer _ hne (.currentRead re hlow hle hre)))
    fun _ hle _ => .single (.slot peer _ hne (.currentFailed hle)))

/-- The part of the refresh that comes before the reads. -/
theorem sends_beforeRefresh (hne : peer ≠ s.ri.self) :
    Sends (modifyRi fun ri =>
      ri.setFollowerInfo peer (FollowerInfo.beforeRefresh (ri.followerInfo peer))) s := by
  refine sends_of_wp ?_
  rw [wp_modifyRi, FollowerInfo.beforeRefresh]
  split
  · rename_i hz
    exact .single (.slot peer _ hne (.first hz))
  · rw [setFollowerInfo_self]

/-- Nothing but slots changes under the sender. -/
theorem frame_of_sends {α : Type} {m : Server n α} {a : α} {s' : Proc n} (h : Sends m s)
    (hres : m s = .ok a s') : SameButSlots s.ri s'.ri := by
  have hwp := h.invariant (P := fun v => SameButSlots s.ri v.1)
    (fun _ _ hv hstep => hv.trans hstep.sameButSlots) (.refl _)
  have hok := wp_of_ok hres hwp
  exact hok

theorem sends_refreshFollowerPrevLogTerm (hne : peer ≠ s.ri.self) :
    Sends (refreshFollowerPrevLogTerm peer) s := by
  refine sends_getRi_bind (sends_assert_bind fun _ => sends_assert_bind fun _ => ?_)
  refine .bind (sends_beforeRefresh hne) fun _ s₁ h₁ => ?_
  have hne₁ : peer ≠ s₁.ri.self := by
    rw [frame_of_sends (sends_beforeRefresh hne) h₁]
    exact hne
  refine .bind (sends_refreshPrev hne₁) fun rc s₂ h₂ => ?_
  cases rc with
  | error rc => exact .pure
  | ok u =>
    refine sends_refreshCurrent ?_
    rw [frame_of_sends (sends_refreshPrev hne₁) h₂]
    exact hne₁

/-- Once the entry before the next index is known, the slot is refreshed. -/
theorem wp_refreshCurrent_refreshed (hprev : 0 ≤ (s.ri.followerInfo peer).prevIdxTerm)
    (hfirst : (s.ri.followerInfo peer).nextIdx = 0 → (s.ri.followerInfo peer).prevIdxTerm = 0)
    (hlead : s.ri.state = .leader) (h0 : 0 ≤ (s.ri.followerInfo peer).nextIdx) :
    (refreshCurrent peer).wp (fun rc s' => s'.ri.state = .leader ∧
        0 ≤ (s'.ri.followerInfo peer).nextIdx ∧
        (rc = .ok () → Refreshed s'.ri (s'.ri.followerInfo peer))) (fun _ => True) s := by
  refine wp_refreshCurrent trivial (fun hpast => ?_) (fun re hlow hle hre => ?_) fun rc hle _ => ?_
  · exact ⟨hlead, h0, fun _ => ⟨hprev, hfirst, fun hle => absurd hle (not_le.mpr hpast)⟩⟩
  · simp only [followerInfo_set]
    refine ⟨hlead, h0, fun _ => ⟨hprev, hfirst, fun _ => ⟨hlow, re, hre, rfl, rfl⟩⟩⟩
  · simp only [followerInfo_set]
    exact ⟨hlead, h0, fun h => by cases h⟩

/-- `raft_server_refresh_follower_prev_log_term`. -/
theorem wp_refreshFollowerPrevLogTerm :
    (refreshFollowerPrevLogTerm peer).wp (fun rc s' => s'.ri.state = .leader ∧
        0 ≤ (s'.ri.followerInfo peer).nextIdx ∧
        (rc = .ok () → Refreshed s'.ri (s'.ri.followerInfo peer))) (fun _ => True) s := by
  simp only [refreshFollowerPrevLogTerm, wp_bind, wp_getRi, wp_assert, wp_modifyRi]
  refine ⟨fun hl => ⟨fun h0 => ?_, fun _ => trivial⟩, fun _ => trivial⟩
  have hlead : s.ri.state = .leader := by simpa [RaftInstance.isLeader] using hl
  have hnext : (FollowerInfo.beforeRefresh (s.ri.followerInfo peer)).nextIdx =
      (s.ri.followerInfo peer).nextIdx := by
    unfold FollowerInfo.beforeRefresh
    split <;> rfl
  have hfirst : (s.ri.followerInfo peer).nextIdx = 0 →
      (FollowerInfo.beforeRefresh (s.ri.followerInfo peer)).prevIdxTerm = 0 := by
    intro hz
    rw [FollowerInfo.beforeRefresh, if_pos hz]
  refine wp_refreshPrev (s := { s with ri := _ }) trivial ?_ ?_ ?_
  · simp only [followerInfo_set]
    intro hprev
    refine wp_refreshCurrent_refreshed (s := { s with ri := _ }) ?_ ?_ hlead ?_
    · simpa only [followerInfo_set] using hprev
    · simpa only [followerInfo_set, hnext] using hfirst
    · simpa only [followerInfo_set, hnext] using h0
  · simp only [followerInfo_set, setFollowerInfo_set]
    intro re _ hpos _ _ _ hterm
    refine wp_refreshCurrent_refreshed (s := { s with ri := _ }) ?_ ?_ hlead ?_
    · simpa only [followerInfo_set] using hterm
    · simp only [followerInfo_set]
      intro hz
      omega
    · simp only [followerInfo_set]
      omega
  · simp only [followerInfo_set, setFollowerInfo_set, wp_pure]
    intro rc _ _
    exact ⟨hlead, by rw [hnext]; exact h0, fun h => by cases h⟩

/-! ## The request -/

/-- The result of a read that did not succeed. -/
theorem eq_ok_of_isOk {rc : Except Errno Unit} (h : rc.isOk = true) : rc = .ok () := by
  cases rc with
  | error rc => cases h
  | ok u => rfl

theorem sends_leaderInitAppendEntryMsg {heartbeat : Bool} (hne : peer ≠ s.ri.self) :
    Sends (leaderInitAppendEntryMsg peer heartbeat) s := by
  refine .bind (sends_refreshFollowerPrevLogTerm hne) fun rc s₁ _ => sends_assert_bind fun _ => ?_
  exact sends_getRi_bind (sends_assert_bind fun _ => .pure)

/-- `raft_server_leader_init_append_entry_msg`. -/
theorem wp_leaderInitAppendEntryMsg {heartbeat : Bool} :
    (leaderInitAppendEntryMsg peer heartbeat).wp (fun r s' => s'.ri.state = .leader ∧
        PreparedFrom s'.ri (s'.ri.followerInfo peer) r.1 ∧ r.1.entries = [] ∧
        r.1.entryOutOfRange = r.2) (fun _ => True) s := by
  rw [leaderInitAppendEntryMsg, wp_bind]
  refine wp_mono wp_refreshFollowerPrevLogTerm (fun rc s' h => ?_) fun _ h => h
  obtain ⟨hlead, h0, hok⟩ := h
  simp only [wp_bind, wp_assert, wp_getRi, wp_pure]
  refine ⟨fun _ => ⟨fun _ => ⟨hlead, ?_, trivial, trivial⟩, fun _ => trivial⟩, fun _ => trivial⟩
  refine ⟨rfl, rfl, rfl, rfl, h0, fun hin => ?_, fun hin => ?_, fun hin => ?_⟩
  all_goals simp only [Bool.not_eq_false'] at hin
  · exact hok (eq_ok_of_isOk hin)
  · simp [hin]
  · simp [hin]

section Entry

variable [Externals] {m : AppendEntriesRequestMsg}

/-- The entry of a request is the leader's, if it was not compacted. -/
theorem wp_attachEntry {Q : Option AppendEntriesRequestMsg → Proc n → Prop} (hD : D s)
    (hnone : m.prevLogIndex + 1 < s.ri.lowestIdx → Q none s)
    (hsome : ∀ re, s.ri.store.db.entries[(m.prevLogIndex + 1).toNat]? = some re →
      Q (some (m.withEntry re)) s) : (attachEntry m).wp Q D s := by
  rw [attachEntry, wp_bind]
  refine wp_entryHeaderReadByStore_validated hD (fun rc hrc => ?_) fun re _ _ hre _ => ?_
  · cases rc with
    | ERANGE => exact hnone hrc.lt_lowest
    | _ => exact hD
  have hwith := hsome re hre
  simp only [wp_bind, wp_assert, wp_ite, wp_pure]
  refine ⟨fun _ => ⟨fun hz => ?_, fun hnz => ?_⟩, fun _ => hD⟩
  · rwa [AppendEntriesRequestMsg.withEntry, if_pos hz] at hwith
  · refine wp_entryRead hD (fun rc hrc => ?_) fun re' _ hre' => ?_
    · cases rc with
      | ERANGE => exact absurd rfl hrc
      | _ => exact hD
    · obtain rfl : re' = re := Option.some.inj (hre'.symm.trans hre)
      rwa [AppendEntriesRequestMsg.withEntry, if_neg hnz] at hwith

/-- One round of the sender. -/
theorem sends_appendEntrySendTo {my : Int} {heartbeat : Bool} (hne : peer ≠ s.ri.self)
    (hmy : my = s.ri.newestUnsync.index) : Sends (appendEntrySendTo my peer heartbeat) s := by
  refine .bind (sends_leaderInitAppendEntryMsg hne) fun built s₁ h₁ => ?_
  obtain ⟨hlead, hprep, hempty, hout⟩ := wp_of_ok h₁ wp_leaderInitAppendEntryMsg
  obtain ⟨m, stale⟩ := built
  simp only at hprep hempty hout
  have hframe := frame_of_sends (sends_leaderInitAppendEntryMsg hne) h₁
  have hne' : peer ≠ s₁.ri.self := by
    rw [hframe]
    exact hne
  have hun : s₁.ri.newestUnsync.index = my := by
    rw [hframe]
    exact hmy.symm
  refine sends_assert_bind fun _ => .fatalIf_bind .refl fun hpast => ?_
  have hidx := hprep.prevLogIndex
  have hpos : m.prevLogIndex + 1 = (s₁.ri.followerInfo peer).nextIdx := by omega
  have hwithin : (s₁.ri.followerInfo peer).nextIdx - 1 ≤ s₁.ri.newestUnsync.index := by omega
  refine .ite (fun hsend => ?_) fun _ => ?_
  · refine sends_of_wp ?_
    rw [wp_bind]
    refine wp_attachEntry ⟨_, .refl, .refl _⟩ (fun _ => .refl) fun re hre => ?_
    rw [hpos] at hre
    simp only [wp_bind, wp_sendMsg_some, wp_pure]
    refine .single (.request peer _ hlead hne' ⟨hprep.withEntry re, hwithin, fun _ => ⟨?_, ?_, re, hre,
      carriesEntry_withEntry hempty⟩⟩)
    · rw [Bool.or_eq_false_iff] at hsend
      exact hout.trans hsend.1.2
    · omega
  · refine sends_of_wp ?_
    simp only [wp_bind, wp_sendMsg_some, wp_pure]
    refine .single (.request peer _ hlead hne' ⟨⟨hprep.leaderTerm, hprep.commitIndex,
      hprep.lowestIndex, hprep.prevLogIndex, hprep.nonneg, hprep.refreshed, hprep.prev,
      hprep.next⟩, hwithin, fun h => by cases h⟩)

omit [Externals] in
theorem sends_appendEntryShouldSendToFollower {clock : SendClock n} (hne : peer ≠ s.ri.self) :
    Sends (appendEntryShouldSendToFollower clock peer) s := by
  refine sends_getRi_bind ?_
  cases clock.sinceLastUnacked peer with
  | none => exact .pure
  | some since =>
    refine .bind (sends_of_wp (.single (.slot peer _ hne (.wait _)))) fun _ s₁ _ => ?_
    exact .ite (fun _ => sends_assert_bind fun _ => .pure) fun _ => .pure

theorem sends_appendEntrySenderLoop {clock : SendClock n} {my : Int} (peers : List (Fin n))
    (heartbeat : Bool) (hmy : my = s.ri.newestUnsync.index) :
    Sends (appendEntrySenderLoop clock my peers heartbeat) s := by
  induction peers generalizing heartbeat s with
  | nil => exact .pure
  | cons peer peers ih =>
    refine sends_getRi_bind (.ite (fun _ => ih _ hmy) fun hne => ?_)
    have hshould : Sends (appendEntryShouldSendToFollower clock peer) s :=
      sends_appendEntryShouldSendToFollower hne
    refine .bind hshould fun send s₁ h₁ => ?_
    have hmy₁ : my = s₁.ri.newestUnsync.index := by
      rw [frame_of_sends hshould h₁]
      exact hmy
    have hne₁ : peer ≠ s₁.ri.self := by
      rw [frame_of_sends hshould h₁]
      exact hne
    refine .ite (fun _ => ih _ hmy₁) fun _ => ?_
    refine .bind (sends_appendEntrySendTo hne₁ hmy₁) fun _ s₂ h₂ => ih _ ?_
    rw [frame_of_sends (sends_appendEntrySendTo hne₁ hmy₁) h₂]
    exact hmy₁

/-- `raft_server_append_entry_sender`. -/
theorem sends_appendEntrySender {clock : SendClock n} {heartbeat : Bool} :
    Sends (appendEntrySender clock heartbeat) s :=
  sends_getRi_bind (.whenever fun _ => sends_appendEntrySenderLoop _ _ rfl)

/-- The requests of the sender are built from slots of the instance it runs on, and what a refresh
of a slot keeps holds of these. -/
theorem builtFrom_of_sent {P : RaftInstance n → Prop} {clock : SendClock n} {heartbeat : Bool}
    {ri : RaftInstance n} {trace : List (Obs n)} {fuse : Option Nat} (h : P ri)
    (hslot : ∀ ri q rfi, P ri → q ≠ ri.self → SlotRefresh ri (ri.followerInfo q) rfi →
      P (ri.setFollowerInfo q rfi)) {x : Fin n × RpcMsg n}
    (hx : x ∈ (appendEntrySender clock heartbeat ⟨ri, [], trace, fuse⟩).state.out) :
    ∃ ri' m, P ri' ∧ SameButSlots ri ri' ∧ ri.state = .leader ∧ x.1 ≠ ri.self ∧
      BuiltFrom ri' (ri'.followerInfo x.1) m ∧ x.2 = .appendEntriesRequest m := by
  set s₀ : Proc n := ⟨ri, [], trace, fuse⟩ with hs₀
  have hsend : Sends (appendEntrySender clock heartbeat) s₀ := sends_appendEntrySender
  set Sent : Fin n × RpcMsg n → Prop := fun x => ∃ ri' m, P ri' ∧ SameButSlots ri ri' ∧
    ri.state = .leader ∧ x.1 ≠ ri.self ∧ BuiltFrom ri' (ri'.followerInfo x.1) m ∧
    x.2 = .appendEntriesRequest m
  have hinv := hsend.invariant (P := fun v : Visible n => P v.1 ∧ SameButSlots ri v.1 ∧
    ∀ x ∈ v.2, Sent x) ?_ ⟨h, .refl _, fun x hx => by cases hx⟩
  · have hout : ∀ x ∈ (appendEntrySender clock heartbeat s₀).state.out, Sent x := by
      refine state_of_wp (P := fun s => ∀ x ∈ s.out, Sent x) (wp_mono hinv (fun _ s hs => hs.2.2) ?_)
      rintro d ⟨v, hv, hd⟩
      have hout : d.out = v.2 := hd.out
      rw [hout]
      exact hv.2.2
    exact hout x hx
  · rintro v v' ⟨hv, hsame, hout⟩ hstep
    have hsame' := hsame.trans hstep.sameButSlots
    cases hstep with
    | slot q rfi hne hrefresh => exact ⟨hslot _ q rfi hv hne hrefresh, hsame', hout⟩
    | request q m hlead hne hbuilt =>
      refine ⟨hv, hsame', fun y hy => ?_⟩
      rcases List.mem_append.mp hy with hy | hy
      · exact hout y hy
      · obtain rfl := List.mem_singleton.mp hy
        simp only at hsame
        rw [hsame] at hlead hne
        exact ⟨_, m, hv, hsame, hlead, hne, hbuilt, rfl⟩

end Entry

end RaftServer

end NiovaRaft
