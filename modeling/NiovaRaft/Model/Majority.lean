import NiovaRaft.Base.Quorum
import NiovaRaft.Model.Types

/-!
# The majority index

The functions of `raft.h` that find the index a majority of the peers has reached, with their checks.
How few and how many peers there may be is given by another library, and so is the number that stands
for no peer.
-/

namespace NiovaRaft

namespace MajorityIdx

open Base

/-- The constants of the control service. -/
structure PeerLimits where
  /-- `CTL_SVC_MIN_RAFT_PEERS`. -/
  minRaftPeers : Nat
  /-- `CTL_SVC_MAX_RAFT_PEERS`. -/
  maxRaftPeers : Nat
  /-- `RAFT_PEER_ANY`. -/
  peerAny : UInt8
  /-- A raft has a peer. -/
  minRaftPeers_pos : 0 < minRaftPeers

/-- `raft_num_members_is_valid`. -/
def numMembersIsValid (limits : PeerLimits) (numRaftMembers : UInt8) : Bool :=
  if numRaftMembers.toNat > limits.maxRaftPeers ∨ numRaftMembers.toNat < limits.minRaftPeers then
    false
  else true

/-- `raft_majority_index_value`. -/
def majorityIndexValue (limits : PeerLimits) (numRaftMembers : UInt8) : UInt8 :=
  if numMembersIsValid limits numRaftMembers = false then limits.peerAny
  else numRaftMembers - numRaftMembers / 2 - 1

/-- `raft_server_entry_idx_qsort_compare`. -/
def entryIdxQsortCompare (x y : Int) : Int := if x < y then -1 else if x > y then 1 else 0

/-- `raft_server_get_majority_entry_idx`: the array as it is left, and what is read from it, if the
place is one of the array.  Both pointers may be null. -/
def getMajorityEntryIdx (limits : PeerLimits) (values : Option (List Int)) (retVal : Bool) :
    Except Errno (List Int × Option Int) :=
  match values with
  | none => .error .EINVAL
  | some values =>
      if retVal = false then .error .EINVAL
      else if values.length > limits.maxRaftPeers then .error .E2BIG
      else
        let values := qsort entryIdxQsortCompare values
        let idx := majorityIndexValue limits (UInt8.ofNat values.length)
        .ok (values, values[idx.toNat]?)

end MajorityIdx

end NiovaRaft
