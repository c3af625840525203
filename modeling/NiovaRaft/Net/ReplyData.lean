import NiovaRaft.Base.Calls
import NiovaRaft.Base.Regions
import NiovaRaft.Model.ReplyData

/-!
# What the application gets of the reply buffer

What is handed out is to lie in the buffer, one part behind the other, and both counters are to say how
much it is.  The size that is asked for is added before it is compared, and the sum may wrap around; and
the counter in the message has 32 bits.  `Fits` says when neither matters, and the buffer is handed out
as it should be in the runs in which every size fits.
-/

namespace NiovaRaft.ReplyData

open Base

/-- A handle, and the parts of the reply data that were returned for it. -/
structure Mapping where
  rncr : RequestHandle
  regions : List Region

/-- A call.  Where it returns a pointer, the part is put on record. -/
def Mapping.map (m : Mapping) (size : UInt64) : Mapping :=
  match replyDataMap m.rncr size with
  | none => m
  | some (rncr, none) => { m with rncr := rncr }
  | some (rncr, some buf) => ⟨rncr, m.regions ++ [⟨buf.toNat, size.toNat⟩]⟩

/-- A handle after it was initialized. -/
def RequestHandle.fresh (replyBuf : Bool) (capacity : UInt64) : RequestHandle :=
  ⟨if replyBuf then some ⟨0⟩ else none, capacity, 0⟩

/-- A fresh handle, with nothing handed out. -/
def Mapping.fresh (replyBuf : Bool) (capacity : UInt64) : Mapping := ⟨.fresh replyBuf capacity, []⟩

theorem netClientRequestInit_eq_some {replyBuf isDirectReq : Bool} {replyBufSize : UInt64}
    {rncr : RequestHandle} (h : netClientRequestInit replyBuf replyBufSize isDirectReq = some rncr) :
    rncr = .fresh replyBuf (replyBufSize - UInt64.ofNat clientRpcMsgSize) := by
  unfold netClientRequestInit at h
  dsimp only at h
  split at h
  · cases h
  · cases h
    cases replyBuf <;> rfl

/-- What was handed out is where it should be, and the counters tell how much it is. -/
structure Mapping.Sound (m : Mapping) : Prop where
  consecutive : Region.Consecutive 0 m.regions
  disjoint : m.regions.Pairwise fun r r' => Disjoint r.bytes r'.bytes
  inside : ∀ r ∈ m.regions, r.stop ≤ m.rncr.rncrReplyDataMaxSize.toNat
  replyDataSize : m.rncr.rncrReplyDataSize.toNat = Region.total m.regions
  rcrmDataSize : ∀ reply ∈ m.rncr.rncrReplyPtr, reply.rcrmDataSize.toNat = Region.total m.regions

/-- A call returns, and one that returns no pointer changes nothing. -/
structure MapsRight (rncr : RequestHandle) (size : UInt64) : Prop where
  returns : replyDataMap rncr size ≠ none
  refused : ∀ rncr', replyDataMap rncr size = some (rncr', none) → rncr' = rncr

/-- The sum does not wrap around, and if there is room for it the message can count it. -/
def Fits (rncr : RequestHandle) (size : UInt64) : Prop :=
  rncr.rncrReplyPtr.isSome = true →
    rncr.rncrReplyDataSize.toNat + size.toNat < 2 ^ 64 ∧
      (rncr.rncrReplyDataSize.toNat + size.toNat ≤ rncr.rncrReplyDataMaxSize.toNat →
        rncr.rncrReplyDataSize.toNat + size.toNat < 2 ^ 32)

/-! ## One call -/

section Call

variable {rncr : RequestHandle} {size : UInt64} {reply : ClientRpcMsg}

theorem replyDataMap_of_none (h : rncr.rncrReplyPtr = none) :
    replyDataMap rncr size = some (rncr, none) := by
  rw [replyDataMap, h]

theorem replyDataMap_zero : replyDataMap rncr 0 = some (rncr, none) := by
  rw [replyDataMap]
  split
  · rfl
  · rfl

/-- The sums are taken modulo the width of a size. -/
theorem replyDataMap_of_some (h : rncr.rncrReplyPtr = some reply) (hsize : size ≠ 0)
    (hassert : reply.rcrmDataSize.toNat ≤ rncr.rncrReplyDataMaxSize.toNat) :
    replyDataMap rncr size =
      if rncr.rncrReplyDataMaxSize.toNat < (reply.rcrmDataSize.toNat + size.toNat) % 2 ^ 64 ∨
          rncr.rncrReplyDataMaxSize.toNat <
            (rncr.rncrReplyDataSize.toNat + size.toNat) % 2 ^ 64 then
        some (rncr, none)
      else
        some ({ rncr with
          rncrReplyPtr := some ⟨(reply.rcrmDataSize.toUInt64 + size).toUInt32⟩
          rncrReplyDataSize := rncr.rncrReplyDataSize + size }, some rncr.rncrReplyDataSize) := by
  have hle : reply.rcrmDataSize.toUInt64 ≤ rncr.rncrReplyDataMaxSize := by
    rw [UInt64.le_iff_toNat_le, UInt32.toNat_toUInt64]
    exact hassert
  rw [replyDataMap, h]
  dsimp only
  rw [if_neg hsize, if_neg (not_not.mpr hle)]
  simp only [gt_iff_lt, UInt64.lt_iff_toNat_lt, UInt64.toNat_add, UInt32.toNat_toUInt64]

/-- The room stays what it is. -/
theorem rncrReplyDataMaxSize_replyDataMap {rncr' : RequestHandle} {buf : Option UInt64}
    (h : replyDataMap rncr size = some (rncr', buf)) :
    rncr'.rncrReplyDataMaxSize = rncr.rncrReplyDataMaxSize := by
  unfold replyDataMap at h
  split at h
  · cases h
    rfl
  · split at h
    · cases h
      rfl
    · split at h
      · cases h
      · split at h <;> cases h <;> rfl

/-- The counter of the message never exceeds the room, so the assertion holds in every run. -/
theorem replyDataMap_ne_none
    (h : ∀ reply ∈ rncr.rncrReplyPtr,
      reply.rcrmDataSize.toNat ≤ rncr.rncrReplyDataMaxSize.toNat) :
    ∃ rncr' buf, replyDataMap rncr size = some (rncr', buf) ∧
      ∀ reply ∈ rncr'.rncrReplyPtr, reply.rcrmDataSize.toNat ≤ rncr'.rncrReplyDataMaxSize.toNat := by
  cases hreply : rncr.rncrReplyPtr with
  | none =>
    refine ⟨rncr, none, replyDataMap_of_none hreply, ?_⟩
    rw [hreply] at h ⊢
    exact h
  | some reply =>
    by_cases hsize : size = 0
    · subst hsize
      exact ⟨rncr, none, replyDataMap_zero, h⟩
    · have hassert := h reply hreply
      rw [replyDataMap_of_some hreply hsize hassert]
      split
      · exact ⟨rncr, none, rfl, h⟩
      · next hroom =>
        refine ⟨_, _, rfl, ?_⟩
        intro reply' hreply'
        cases hreply'
        show ((reply.rcrmDataSize.toUInt64 + size).toUInt32).toNat ≤ _
        rw [UInt64.toNat_toUInt32, UInt64.toNat_add, UInt32.toNat_toUInt64]
        exact (Nat.mod_le _ _).trans (Nat.not_lt.mp (not_or.mp hroom).1)

end Call

/-! ## The record after a call -/

section Record

variable {m : Mapping} {size : UInt64} {reply : ClientRpcMsg}

theorem Mapping.map_of_refused (h : replyDataMap m.rncr size = some (m.rncr, none)) :
    m.map size = m := by
  rw [Mapping.map, h]

theorem mapsRight_of_refused {rncr : RequestHandle} (h : replyDataMap rncr size = some (rncr, none)) :
    MapsRight rncr size := by
  constructor
  · rw [h]
    exact Option.some_ne_none _
  · intro rncr' h'
    rw [h] at h'
    cases h'
    rfl

theorem mapsRight_of_granted {rncr rncr' : RequestHandle} {buf : UInt64}
    (h : replyDataMap rncr size = some (rncr', some buf)) : MapsRight rncr size := by
  constructor
  · rw [h]
    exact Option.some_ne_none _
  · intro rncr'' h'
    rw [h] at h'
    cases h'

/-- What is handed out takes no more than there is. -/
theorem Mapping.Sound.total_le (h : m.Sound) :
    Region.total m.regions ≤ m.rncr.rncrReplyDataMaxSize.toNat := by
  have := h.consecutive.total_le (Nat.zero_le _) h.inside
  rwa [Nat.zero_add] at this

/-- The record with a part more, and the counters as the code leaves them. -/
def Mapping.grant (m : Mapping) (reply : ClientRpcMsg) (size : UInt64) : Mapping :=
  ⟨{ m.rncr with
      rncrReplyPtr := some ⟨(reply.rcrmDataSize.toUInt64 + size).toUInt32⟩
      rncrReplyDataSize := m.rncr.rncrReplyDataSize + size },
    m.regions ++ [⟨m.rncr.rncrReplyDataSize.toNat, size.toNat⟩]⟩

/-- One more part is right when it ends in the buffer and the message can count it. -/
theorem Mapping.Sound.grant_iff (h : m.Sound) (hreply : m.rncr.rncrReplyPtr = some reply) :
    (m.grant reply size).Sound ↔
      m.rncr.rncrReplyDataSize.toNat + size.toNat ≤ m.rncr.rncrReplyDataMaxSize.toNat ∧
        m.rncr.rncrReplyDataSize.toNat + size.toNat < 2 ^ 32 := by
  have hused := h.replyDataSize
  have hcount : reply.rcrmDataSize.toNat = Region.total m.regions := h.rcrmDataSize reply hreply
  have htotal : Region.total (m.grant reply size).regions =
      Region.total m.regions + size.toNat := by
    rw [Mapping.grant, Region.total_append, Region.total_cons, Region.total_nil, Nat.add_zero]
  have hword : (reply.rcrmDataSize.toUInt64 + size).toUInt32.toNat =
      (Region.total m.regions + size.toNat) % 2 ^ 64 % 2 ^ 32 := by
    rw [UInt64.toNat_toUInt32, UInt64.toNat_add, UInt32.toNat_toUInt64, hcount]
  have hmax := m.rncr.rncrReplyDataMaxSize.toNat_lt
  rw [hused]
  constructor
  · intro hnew
    have hstop := hnew.inside ⟨m.rncr.rncrReplyDataSize.toNat, size.toNat⟩
      (List.mem_append_right _ List.mem_cons_self)
    have hstop' : m.rncr.rncrReplyDataSize.toNat + size.toNat ≤
      m.rncr.rncrReplyDataMaxSize.toNat := hstop
    rw [hused] at hstop'
    have hnarrow := hnew.rcrmDataSize _ rfl
    rw [hword, htotal] at hnarrow
    exact ⟨hstop', by omega⟩
  · rintro ⟨hroom, hnarrow⟩
    have hconsecutive : Region.Consecutive 0 (m.grant reply size).regions := by
      rw [Mapping.grant, Region.consecutive_append_singleton]
      exact ⟨h.consecutive, by rw [hused, Nat.zero_add]⟩
    constructor
    · exact hconsecutive
    · exact hconsecutive.pairwise_disjoint
    · intro r hr
      rcases List.mem_append.mp hr with hold | hlast
      · exact h.inside r hold
      · rw [List.mem_singleton.mp hlast]
        show m.rncr.rncrReplyDataSize.toNat + size.toNat ≤ m.rncr.rncrReplyDataMaxSize.toNat
        rw [hused]
        exact hroom
    · show (m.rncr.rncrReplyDataSize + size).toNat = _
      rw [UInt64.toNat_add, htotal, hused]
      exact Nat.mod_eq_of_lt (by omega)
    · intro reply' hreply'
      cases hreply'
      show (reply.rcrmDataSize.toUInt64 + size).toUInt32.toNat = _
      rw [hword, htotal]
      omega

/-- A call does what it should just when the size fits. -/
theorem mapsRight_sound_iff (h : m.Sound) :
    (MapsRight m.rncr size ∧ (m.map size).Sound) ↔ Fits m.rncr size := by
  have hrefused : replyDataMap m.rncr size = some (m.rncr, none) → Fits m.rncr size →
      ((MapsRight m.rncr size ∧ (m.map size).Sound) ↔ Fits m.rncr size) := by
    intro hmap hfits
    refine iff_of_true ⟨mapsRight_of_refused hmap, ?_⟩ hfits
    rw [Mapping.map_of_refused hmap]
    exact h
  cases hreply : m.rncr.rncrReplyPtr with
  | none =>
    refine hrefused (replyDataMap_of_none hreply) fun hsome => ?_
    rw [hreply] at hsome
    cases hsome
  | some reply =>
    have hused := h.replyDataSize
    have hcount : reply.rcrmDataSize.toNat = Region.total m.regions := h.rcrmDataSize reply hreply
    have hnarrow := reply.rcrmDataSize.toNat_lt
    have hle := h.total_le
    have hmax := m.rncr.rncrReplyDataMaxSize.toNat_lt
    by_cases hsize : size = 0
    · subst hsize
      refine hrefused replyDataMap_zero fun _ => ?_
      rw [UInt64.toNat_zero]
      omega
    · have hmap : replyDataMap m.rncr size = _ :=
        replyDataMap_of_some hreply hsize (by omega)
      simp only [hused, hcount, or_self] at hmap
      by_cases hroom : m.rncr.rncrReplyDataMaxSize.toNat <
          (Region.total m.regions + size.toNat) % 2 ^ 64
      · rw [if_pos hroom] at hmap
        refine hrefused hmap fun _ => ?_
        -- a sum that wrapped around would be less than what is used, and that has room
        have hsz := size.toNat_lt
        omega
      · rw [if_neg hroom] at hmap
        have hgrant : m.map size = m.grant reply size := by
          rw [Mapping.map, hmap]
          rfl
        rw [hgrant, h.grant_iff hreply, Fits, hreply, and_iff_right (mapsRight_of_granted hmap)]
        constructor
        · intro hfit _
          omega
        · intro hfit
          have := hfit rfl
          omega

end Record

/-! ## Runs -/

/-- Each call does what it should, and leaves the record what it should be. -/
def MapsReply (replyBuf : Bool) (capacity : UInt64) (sizes : List UInt64) : Prop :=
  EachCall Mapping.map (fun m size => MapsRight m.rncr size ∧ (m.map size).Sound)
    (.fresh replyBuf capacity) sizes

theorem Mapping.sound_fresh (replyBuf : Bool) (capacity : UInt64) :
    (Mapping.fresh replyBuf capacity).Sound := by
  refine ⟨trivial, List.Pairwise.nil, fun _ hr => absurd hr List.not_mem_nil, rfl, ?_⟩
  intro reply hreply
  cases replyBuf with
  | false => cases hreply
  | true =>
    cases hreply
    rfl

/-- The buffer is handed out as it should be just in the runs in which every size fits. -/
theorem mapsReply_iff (replyBuf : Bool) (capacity : UInt64) (sizes : List UInt64) :
    MapsReply replyBuf capacity sizes ↔
      EachCall Mapping.map (fun m size => Fits m.rncr size) (.fresh replyBuf capacity) sizes :=
  eachCall_congr (Mapping.sound_fresh replyBuf capacity) (fun _ _ h => mapsRight_sound_iff h)
    (fun _ _ _ h => h.2) sizes

theorem Mapping.map_maxSize (m : Mapping) (size : UInt64) :
    (m.map size).rncr.rncrReplyDataMaxSize = m.rncr.rncrReplyDataMaxSize := by
  rw [Mapping.map]
  split
  · rfl
  · next h => exact rncrReplyDataMaxSize_replyDataMap h
  · next h => exact rncrReplyDataMaxSize_replyDataMap h

/-- With a buffer that 32 bits can count, only sizes near the end of their range are handed out wrong. -/
theorem mapsReply_of_lt (replyBuf : Bool) {capacity : UInt64} (hcapacity : capacity.toNat < 2 ^ 32)
    {sizes : List UInt64} (hsizes : ∀ size ∈ sizes, size.toNat < 2 ^ 64 - 2 ^ 32) :
    MapsReply replyBuf capacity sizes := by
  refine eachCall_of_invariant (fun m => m.Sound ∧ m.rncr.rncrReplyDataMaxSize = capacity)
    ⟨Mapping.sound_fresh replyBuf capacity, rfl⟩ ?_ hsizes
  rintro m size ⟨hsound, hmax⟩ hsize
  have hfits : Fits m.rncr size := by
    intro _
    have hle := hsound.total_le
    rw [hmax] at hle ⊢
    rw [hsound.replyDataSize]
    omega
  have hright := (mapsRight_sound_iff hsound).mpr hfits
  exact ⟨hright, hright.2, (m.map_maxSize size).trans hmax⟩

/-- A size that makes the sum wrap around is granted. -/
theorem not_mapsReply_wrap : ¬ MapsReply true 4096 [100, 18446744073709551566] := by
  intro h
  have hstop : (100 : Nat) + 18446744073709551566 ≤ 4096 :=
    h.2.1.2.inside ⟨100, 18446744073709551566⟩ (List.mem_cons_of_mem _ List.mem_cons_self)
  omega

end NiovaRaft.ReplyData
