import NiovaRaft.Model.Cluster
import NiovaRaft.Spec.Apply

/-!
# What the state machine is given

The callback is given a handle for every sub-entry.  The bytes, their size and the handler version
come from the entry.  The entry's term does not: `raft_server_net_client_request_init`, which also
serves the requests of clients, takes it from the server, and the apply loop leaves it so.
-/

namespace NiovaRaft

open Base Base.Handler

variable {n : Nat}

/-- The sub-entry and the handle of a call of the callback. -/
def Obs.request : Obs n → Option (Nat × ClientRequestHandle)
  | .requests _ i rncr => some (i, rncr)
  | _ => none

/-- What an apply of `ri` gives to the callback, with the writes it survives. -/
def RaftInstance.smRequests [Externals] (ri : RaftInstance n) (cb : SmRequestCb)
    (fuse : Option Nat) : List (Nat × ClientRequestHandle) :=
  (RaftServer.stateMachineApply cb ⟨ri, [], [], fuse⟩).state.trace.filterMap Obs.request

/-- The entry that an apply takes. -/
def RaftInstance.nextToApply (ri : RaftInstance n) : Option Entry :=
  ri.store.db.entries[(RaftServer.nextApplyIdx ri.lastApplied).idx.toNat]?

/-- Two servers' copies of one entry of the log. -/
structure SameEntry (re re' : Entry) : Prop where
  index : re.header.index = re'.header.index
  dataSize : re.header.dataSize = re'.header.dataSize
  core : re.core = re'.core

/-- Two calls are given the same, and the term of the entry. -/
structure SameInputs (term : Int) (x x' : ClientRequestHandle) : Prop where
  data : x.requestOrCommitData = x'.requestOrCommitData
  size : x.requestOrCommitDataSize = x'.requestOrCommitDataSize
  version : x.applyHandlerVersion = x'.applyHandlerVersion
  entryTerm : x.entryTerm = x'.entryTerm
  isEntryTerm : x.entryTerm = term

namespace RaftServer

variable [Externals]

/-- What a call for sub-entry `i` of `re` is given by a server in `term`. -/
structure GivenFrom (re : Entry) (term : Int) (i : Nat) (rncr : ClientRequestHandle) : Prop where
  data : rncr.requestOrCommitData = subBytes (re.data.take re.header.dataSize) (subSizes re) i
  size : (subSizes re)[i]? = some rncr.requestOrCommitDataSize
  version : rncr.applyHandlerVersion = re.header.applyHandlerVersion
  entryTerm : rncr.entryTerm = term

/-- All calls so far. -/
def AllGiven (ri : RaftInstance n) (trace : List (Obs n)) : Prop :=
  ∀ i rncr, (i, rncr) ∈ trace.filterMap Obs.request →
    ∃ re, ri.nextToApply = some re ∧ GivenFrom re ri.logHdr.term i rncr

omit [Externals] in
theorem AllGiven.append {ri : RaftInstance n} {trace : List (Obs n)} (h : AllGiven ri trace)
    {o : Obs n} (ho : ∀ i rncr, o.request = some (i, rncr) →
      ∃ re, ri.nextToApply = some re ∧ GivenFrom re ri.logHdr.term i rncr) :
    AllGiven ri (trace ++ [o]) := by
  intro i rncr hmem
  rw [List.filterMap_append, List.mem_append] at hmem
  rcases hmem with hmem | hmem
  · exact h i rncr hmem
  · refine ho i rncr ?_
    simpa using hmem

/-- However an apply ends, the callback was given the parts of the next entry, and the server's
term. -/
theorem wp_stateMachineApply_given {cb : SmRequestCb} {s : Proc n} (h : AllGiven s.ri s.trace) :
    (stateMachineApply cb).wp (fun _ s' => AllGiven s.ri s'.trace)
      (fun d => AllGiven s.ri d.trace) s := by
  refine wp_stateMachineApply_rule h (fun _ => h) (fun re hnext _ => ?_) fun re hnext _ => ?_
  · have h' := h.append (o := .applies re.header.index re.header.term re.header.entrySz [])
      fun _ _ ho => by cases ho
    exact wp_setLastApplied_record (fun _ => h') (fun _ => h') fun _ _ _ _ =>
      wp_notifyIfNeedsApply h' h'
  · have h' := h.append (o := .applies re.header.index re.header.term re.header.entrySz
      (re.data.take re.header.dataSize)) fun _ _ ho => by cases ho
    refine wp_mono (wp_applySubEntries_all
      (I := fun _ _ s' => s'.ri.logHdr = s.ri.logHdr ∧ AllGiven s.ri s'.trace) ⟨rfl, h'⟩
      (fun _ _ _ _ hI => hI) ?_) ?_ fun _ => id
    · rintro k size nai s₁ hsize _ ⟨hhdr, hs₁⟩
      have hgiven := hs₁.append (o := .requests nai.idx k (applyHandle s₁.ri re.header nai
          (subBytes (re.data.take re.header.dataSize) (subSizes re) k) size)) ?_
      · exact wp_applySubEntry rfl (fun _ => hgiven) (fun _ => hgiven) fun _ _ _ _ => ⟨hhdr, hgiven⟩
      · intro i rncr ho
        cases ho
        exact ⟨re, hnext.held, rfl, hsize, rfl, by rw [← hhdr]; rfl⟩
    · rintro _ s' ⟨_, _, hs'⟩
      exact ⟨fun _ => wp_notifyIfNeedsApply hs' hs', hs'⟩

/-- A handle that an apply gives to the callback. -/
theorem givenFrom_of_mem {ri : RaftInstance n} {cb : SmRequestCb} {fuse : Option Nat} {re : Entry}
    {i : Nat} {rncr : ClientRequestHandle} (hre : ri.nextToApply = some re)
    (hmem : (i, rncr) ∈ ri.smRequests cb fuse) : GivenFrom re ri.logHdr.term i rncr := by
  have hall : AllGiven ri (stateMachineApply cb ⟨ri, [], [], fuse⟩).state.trace :=
    state_of_wp (P := fun s' : Proc n => AllGiven ri s'.trace)
      (wp_stateMachineApply_given (s := ⟨ri, [], [], fuse⟩) fun _ _ hm => by cases hm)
  obtain ⟨re', hre', hgiven⟩ := hall i rncr hmem
  obtain rfl : re' = re := Option.some.inj (hre'.symm.trans hre)
  exact hgiven

end RaftServer

/-- Two servers, or one at two times, that apply the same entry give the callback the same inputs
for a sub-entry, with the term of the entry, exactly when both are in the term of the entry and
their copies have the same handler version. -/
theorem apply_inputs_iff [Externals] {ri ri' : RaftInstance n} {re re' : Entry}
    (hre : ri.nextToApply = some re) (hre' : ri'.nextToApply = some re') (hsame : SameEntry re re')
    {cb cb' : SmRequestCb} {fuse fuse' : Option Nat} {i : Nat} {x x' : ClientRequestHandle}
    (hx : (i, x) ∈ ri.smRequests cb fuse) (hx' : (i, x') ∈ ri'.smRequests cb' fuse') :
    SameInputs re.header.term x x' ↔
      ri.logHdr.term = re.header.term ∧ ri'.logHdr.term = re.header.term ∧
        re.header.applyHandlerVersion = re'.header.applyHandlerVersion := by
  obtain ⟨hdata, hsize, hversion, hterm⟩ := RaftServer.givenFrom_of_mem hre hx
  obtain ⟨hdata', hsize', hversion', hterm'⟩ := RaftServer.givenFrom_of_mem hre' hx'
  obtain ⟨_, hds, hcore⟩ := hsame
  have hbytes : re.data = re'.data := congrArg EntryCore.data hcore
  have hsizes : RaftServer.subSizes re = RaftServer.subSizes re' := by
    have hnum : re.header.numEntries = re'.header.numEntries := congrArg EntryCore.numEntries hcore
    have hsz : re.header.entrySz = re'.header.entrySz := congrArg EntryCore.entrySz hcore
    rw [RaftServer.subSizes, RaftServer.subSizes, hnum, hsz]
  constructor
  · rintro ⟨_, _, hv, ht, ht'⟩
    rw [← hterm, ← hterm', ← hversion, ← hversion']
    exact ⟨ht', ht.symm.trans ht', hv⟩
  · rintro ⟨ht, ht', hv⟩
    refine ⟨?_, ?_, ?_, ?_, ?_⟩
    · rw [hdata, hdata', hsizes, hbytes, hds]
    · rw [hsizes, hsize'] at hsize
      exact (Option.some.inj hsize).symm
    · rw [hversion, hversion', hv]
    · rw [hterm, hterm', ht, ht']
    · rw [hterm, ht]

/-- The handle that a server in `term` is given for the request of `servedRequest`. -/
def servedHandle (term : Int) (isLeader : Bool) : ClientRequestHandle :=
  ⟨.commit, false, isLeader, false, term, term, 1, [7, 8], 2, 0, ⟨[], 0, true⟩, 0⟩

/-- The leader and server 1, each about to apply the request in the term it was written in. -/
theorem apply_inputs_iff_servedRequest :
    SameInputs 1 (servedHandle 1 true) (servedHandle 1 false) := by
  have hre : ((afterRun (servedRequest.take 17)).servers 0).nextToApply =
      some ⟨⟨53, 2, 1, 1, [2], 1, false, 1⟩, [7, 8]⟩ := by decide +kernel
  have hre' : ((afterRun (servedRequest.take 21)).servers 1).nextToApply =
      some ⟨⟨53, 2, 1, 1, [2], 1, false, 1⟩, [7, 8]⟩ := by decide +kernel
  have hx : (0, servedHandle 1 true) ∈ @RaftInstance.smRequests 3 sampleExternals
      ((afterRun (servedRequest.take 17)).servers 0) Event.storeBytes none := by decide +kernel
  have hx' : (0, servedHandle 1 false) ∈ @RaftInstance.smRequests 3 sampleExternals
      ((afterRun (servedRequest.take 21)).servers 1) Event.storeBytes none := by decide +kernel
  have hterm : ((afterRun (servedRequest.take 17)).servers 0).logHdr.term = 1 := by decide +kernel
  have hterm' : ((afterRun (servedRequest.take 21)).servers 1).logHdr.term = 1 := by decide +kernel
  exact (@apply_inputs_iff 3 sampleExternals _ _ _ _ hre hre' ⟨rfl, rfl, rfl⟩ _ _ _ _ _ _ _
    hx hx').mpr ⟨hterm, hterm', rfl⟩

/-- Server 1 stands for term 2 before it applies the request. -/
def appliedLater : List (Event 3) :=
  servedRequest.take 21 ++ [.expire 1, .deliver 2 17, .deliver 1 18, .apply 1]

/-- Both have applied the entry of term 1, and server 1 was told that it is of term 2. -/
theorem appliedLater_other_term :
    @Cluster.Reach 3 sampleExternals Cluster.anyEvent threeServers (afterRun appliedLater) ∧
      (0, Obs.applies 1 1 [2] [7, 8]) ∈ (afterRun appliedLater).history ∧
      (1, Obs.applies 1 1 [2] [7, 8]) ∈ (afterRun appliedLater).history ∧
      (0, Obs.requests 1 0 (servedHandle 1 true)) ∈ (afterRun appliedLater).history ∧
      (1, Obs.requests 1 0 (servedHandle 2 false)) ∈ (afterRun appliedLater).history ∧
      ¬ SameInputs 1 (servedHandle 1 true) (servedHandle 2 false) :=
  ⟨reach_afterRun _, by decide +kernel, by decide +kernel, by decide +kernel, by decide +kernel,
    fun h => absurd h.entryTerm (by decide)⟩

end NiovaRaft
