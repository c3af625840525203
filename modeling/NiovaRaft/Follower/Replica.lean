import NiovaRaft.Safety.LogMatching
import NiovaRaft.Spec.Checksum
import NiovaRaft.Spec.Follower

/-!
# The entry of a follower and the entry of its leader

A request carries the contents of an entry, but not the version of the apply handler that the leader
wrote it with.  The follower fills in its own, and computes the checksum anew.  The two entries are
the same exactly when the two versions are.
-/

namespace NiovaRaft

open Base Base.Handler RaftServer

variable {n : Nat}

section

variable [Externals]

/-- The entry under another version of the apply handler. -/
def Entry.withVersion (e : Entry) (version : Nat) : Entry :=
  let re : Entry := { e with header := { e.header with applyHandlerVersion := version } }
  { re with header := { re.header with crc := entryCalcCrc re } }

theorem Entry.withVersion_eq_iff {e : Entry} (hcrc : entryCalcCrc e = e.header.crc)
    {version : Nat} : e.withVersion version = e ↔ e.header.applyHandlerVersion = version := by
  constructor
  · intro h
    rw [← h]
    rfl
  · rintro rfl
    unfold Entry.withVersion
    dsimp only
    rw [hcrc]

/-- What a follower makes of the request for an entry. -/
theorem entryFromLeader_eq {ri : RaftInstance n} {m : AppendEntriesRequestMsg} {e : Entry}
    {sz : Nat} (hok : EntryOk sz ri.store.db.entries.length e) (hterm : m.logTerm = e.header.term)
    (hcarries : CarriesEntry m e) :
    ri.entryFromLeader m = e.withVersion ri.opts.applyHandlerVersion := by
  have hsizes : m.sizeArr.take (m.numEntries % 256) = e.header.entrySz := by
    have hnarrow := hok.narrow
    rw [hcarries.sizeArr, hcarries.numEntries, Nat.mod_eq_of_lt hnarrow, hok.numEntries,
      List.take_length]
  have hsum : e.header.entrySz.sum = e.header.dataSize := hok.dataSize.symm
  have hzeros : (if e.header.dataSize = 0 then List.replicate e.header.numEntries 0
      else e.header.entrySz) = e.header.entrySz := by
    split
    · rename_i hz
      rw [hok.numEntries]
      exact (List.eq_replicate_of_mem
        (List.sum_eq_zero_iff_forall_eq_nat.mp (hsum.trans hz))).symm
    · rfl
  have hdata : m.entries.take e.header.dataSize = e.data := by
    have hlen := hok.dataLength
    rw [hcarries.entries]
    split
    · rename_i hz
      rw [hz] at hlen ⊢
      exact (List.length_eq_zero_iff.mp hlen).symm
    · rw [List.take_take, min_self, ← hlen, List.take_length]
  unfold RaftInstance.entryFromLeader entryOf Entry.withVersion
  simp only [hsizes, hsum, hdata, hterm, hcarries.marker, ← hok.index, ← hok.numEntries, hzeros]
  rfl

/-- The messages of `raft_server_append_entry_sender` on an instance, also of a process that dies
in it. -/
def sentRequests (ri : RaftInstance n) (clock : SendClock n) (heartbeat : Bool)
    (fuse : Option Nat) : List (Fin n × RpcMsg n) :=
  (appendEntrySender clock heartbeat ⟨ri, [], [], fuse⟩).state.out

/-- The request for an entry carries it. -/
theorem carriesEntry_of_sent {ri : RaftInstance n} {clock : SendClock n} {heartbeat : Bool}
    {fuse : Option Nat} {dst : Fin n} {m : AppendEntriesRequestMsg} {e : Entry}
    (hsent : (dst, .appendEntriesRequest m) ∈ sentRequests ri clock heartbeat fuse)
    (hheart : m.heartbeatMsg = false)
    (he : ri.store.db.entries[(m.prevLogIndex + 1).toNat]? = some e) :
    m.logTerm = e.header.term ∧ CarriesEntry m e := by
  obtain ⟨ri', m', -, hsame, -, -, hbuilt, hm⟩ :=
    builtFrom_of_sent (P := fun _ => True) trivial (fun _ _ _ _ _ _ => trivial) hsent
  injection hm with hm
  subst hm
  simp only at hbuilt
  have hentries : ri'.store = ri.store := by rw [hsame]
  have hpos : m.prevLogIndex + 1 = (ri'.followerInfo dst).nextIdx := by
    rw [hbuilt.prevLogIndex]
    omega
  rw [hpos, ← hentries] at he
  obtain ⟨hin, hle, re, hre, hcarries⟩ := hbuilt.carried hheart
  obtain ⟨-, re', hre', hterm, -⟩ := (hbuilt.refreshed hin).held hle
  obtain rfl : re = e := Option.some.inj (hre.symm.trans he)
  obtain rfl : re' = re := Option.some.inj (hre'.symm.trans he)
  exact ⟨(hbuilt.next hin).1.trans hterm.symm, hcarries⟩

/-- The entry that a follower stores from the request for a leader's entry is that entry exactly
when it was written under the version of the apply handler that the follower runs. -/
theorem replicated_entry_identity {opts opts' : Fin n → Options} {c c' : Cluster n}
    (h : Cluster.Reach Cluster.anyEvent opts c) (h' : Cluster.Reach Cluster.anyEvent opts' c')
    {p q : Fin n} (hp : (c.servers p).procState = .running)
    (hq : (c'.servers q).procState = .running) {clock : SendClock n} {heartbeat : Bool}
    {fuse fuse' : Option Nat} {dst : Fin n} {m : AppendEntriesRequestMsg}
    (hsent : (dst, .appendEntriesRequest m) ∈ sentRequests (c.servers p) clock heartbeat fuse)
    (hheart : m.heartbeatMsg = false) {e : Entry}
    (he : (c.servers p).store.db.entries[(m.prevLogIndex + 1).toNat]? = some e)
    (hends : (c'.servers q).newestUnsync.index + 1 = e.header.index) {s : Proc n}
    (hstored : writeNewEntryFromLeader m ⟨c'.servers q, [], [], fuse'⟩ = .ok () s) :
    s.ri.store.db.entries[e.header.index.toNat]? = some e ↔
      e.header.applyHandlerVersion = (c'.servers q).opts.applyHandlerVersion := by
  have hcons := h.consistent hp
  have hcons' := h'.consistent hq
  obtain ⟨hterm, hcarries⟩ := carriesEntry_of_sent hsent hheart he
  have hcrc := (h.checksumsHold p).db e (List.mem_of_getElem? he)
  -- the follower's log ends just before the entry
  have hlen : e.header.index = (c'.servers q).store.db.entries.length := by
    rw [← hends, hcons'.unsync_index]
    omega
  have hidx := (hcons.entries.entry _ e he).index
  have hok : EntryOk (c.servers p).entryMaxDataSize (c'.servers q).store.db.entries.length e := by
    have hpos : (m.prevLogIndex + 1).toNat = (c'.servers q).store.db.entries.length := by omega
    rw [← hpos]
    exact hcons.entries.entry _ e he
  have hwp : (writeNewEntryFromLeader m).wp (fun _ s' => s'.ri.store.db.entries =
      (c'.servers q).store.db.entries ++
        [e.withVersion (c'.servers q).opts.applyHandlerVersion]) (fun _ => True)
      ⟨c'.servers q, [], [], fuse'⟩ := by
    refine wp_writeNewEntryFromLeader_entry hcons' trivial hheart fun _ _ => ?_
    rw [← entryFromLeader_eq hok hterm hcarries]
    rfl
  rw [wp_of_ok hstored hwp, hlen, Int.toNat_natCast, List.getElem?_concat_length,
    Option.some.injEq]
  exact Entry.withVersion_eq_iff hcrc

end

/-- Server 0 is elected in term 1. -/
def firstElection : List (Event 3) :=
  [.expire 0, .deliver 1 0, .deliver 0 2, .deliver 1 3, .deliver 0 5]

/-- The marker of server 0. -/
def firstMarker (version : Nat) : Entry := ⟨⟨7, 0, 0, 1, [0], version, true, 1⟩, []⟩

/-- What server 0 sends to replicate its marker. -/
def markerRequest : AppendEntriesRequestMsg :=
  { leaderTerm := 1, logTerm := 1, commitIndex := -1, lowestIndex := -1, chkptIndex := -1,
    prevLogTerm := 0, prevLogIndex := -1, prevIdxCrc := 0, thisIdxCrc := 7, sizeArr := [0],
    entriesSz := 0, numEntries := 1, heartbeatMsg := false, leaderChangeMarker := true,
    entryOutOfRange := false, entries := [] }

/-- The process of a server, before a function of it is run. -/
def procOf {n : Nat} (ri : RaftInstance n) : Proc n := ⟨ri, [], [], none⟩

/-- Servers of the same version. -/
theorem replicated_entry_identity_sameVersion :
    ∃ s, @writeNewEntryFromLeader 3 sampleExternals markerRequest
        (procOf ((afterRun firstElection).servers 1)) = .ok () s ∧
      s.ri.store.db.entries[0]? = some (firstMarker 1) := by
  have hok : (@writeNewEntryFromLeader 3 sampleExternals markerRequest
      (procOf ((afterRun firstElection).servers 1))).isOk = true := by decide +kernel
  have hsent : ((1 : Fin 3), RpcMsg.appendEntriesRequest markerRequest) ∈
      @sentRequests 3 sampleExternals ((afterRun firstElection).servers 0) Event.clock false none := by
    decide +kernel
  have hrun : ∀ p : Fin 3, ((afterRun firstElection).servers p).procState = .running := by
    decide +kernel
  have he : ((afterRun firstElection).servers 0).store.db.entries[0]? = some (firstMarker 1) := by
    decide +kernel
  have hends : ((afterRun firstElection).servers 1).newestUnsync.index + 1 = 0 := by decide +kernel
  have hversion : ((afterRun firstElection).servers 1).opts.applyHandlerVersion = 1 := by
    decide +kernel
  exact ⟨_, Outcome.eq_ok_state hok, (@replicated_entry_identity 3 sampleExternals _ _ _ _
    (reach_afterRun _) (reach_afterRun _) 0 1 (hrun 0) (hrun 1) _ _ _ _ _ _ hsent rfl _ he hends _
    (Outcome.eq_ok_state hok)).mpr hversion.symm⟩

/-- Three servers, of which server 1 runs another version of the apply handler. -/
def mixedServers : Fin 3 → Options := fun p => ⟨.rocksdb, false, if p = 1 then 2 else 1, 0⟩

/-- The three servers after a run. -/
def afterMixedRun (es : List (Event 3)) : Cluster 3 :=
  @Cluster.run 3 sampleExternals (.initial mixedServers) es

/-- Server 1 stores the marker of server 0 under its own version. -/
theorem otherVersion_not_identical :
    @Cluster.Reach 3 sampleExternals Cluster.anyEvent mixedServers (afterMixedRun firstElection) ∧
      ((1 : Fin 3), RpcMsg.appendEntriesRequest markerRequest) ∈
        @sentRequests 3 sampleExternals ((afterMixedRun firstElection).servers 0) Event.clock false
          none ∧
      ((afterMixedRun firstElection).servers 0).store.db.entries[0]? = some (firstMarker 1) ∧
      ((afterMixedRun firstElection).servers 1).newestUnsync.index + 1 = 0 ∧
      ∃ s, @writeNewEntryFromLeader 3 sampleExternals markerRequest
          (procOf ((afterMixedRun firstElection).servers 1)) = .ok () s ∧
        s.ri.store.db.entries[0]? = some (firstMarker 2) ∧ firstMarker 2 ≠ firstMarker 1 := by
  have hok : (@writeNewEntryFromLeader 3 sampleExternals markerRequest
      (procOf ((afterMixedRun firstElection).servers 1))).isOk = true := by decide +kernel
  refine ⟨?_, by decide +kernel, by decide +kernel, by decide +kernel, _,
    Outcome.eq_ok_state hok, by decide +kernel, by decide⟩
  exact @Cluster.Reach.run 3 sampleExternals _ _ (@Cluster.Reach.init 3 sampleExternals _ _) _

end NiovaRaft
