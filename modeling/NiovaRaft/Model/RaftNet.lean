import NiovaRaft.Model.Request
import NiovaRaft.Base.Bins
import NiovaRaft.Base.Bytes
import NiovaRaft.Base.CString
import NiovaRaft.Model.Uuid

/-!
# The network layer

The parts of `raft_net.c` that clients and servers share: who answered last, the write supplements
with their completions, and the text of a client's user id.

The tables of `raft_net_comm_recency` hold times as the caller recorded them.  `timespec_2_msec`,
the clock and `random_get` belong to other libraries and are inputs.

Sets of supplements are arrays here, with their counter.  An item is copied with all it points to,
and its completion and the release of its buffers are put on record.

Texts are the bytes of a string before its terminator.  The regular expression for user ids is
compiled from a constant of another library; it is taken to accept what it is meant to.
-/

namespace NiovaRaft

namespace RaftNet

/-! ## Recency -/

/-- `enum raft_net_comm_recency_type`. -/
inductive CommRecencyType where
  | recv | send | unackedSend
deriving DecidableEq, Repr

/-- The members of a raft, and when messages were last sent to and received from each. -/
structure CommTimes (τ : Type) where
  numMembers : Nat
  lastSend : Nat → τ
  lastRecv : Nat → τ
  /-- `random_get() % 0` has no meaning. -/
  numMembers_pos : 0 < numMembers

section Recency

variable {τ : Type} (timespec2Msec : τ → Nat)

/-- `raft_net_comm_recency`, at a time of the clock. -/
def commRecency (ri : CommTimes τ) (raftPeerIdx : Nat) (type : CommRecencyType) (clock : Nat) :
    Except Errno Nat :=
  if ri.numMembers ≤ raftPeerIdx then .error .EINVAL
  else
    let lastSend := timespec2Msec (ri.lastSend raftPeerIdx)
    let lastRecv := timespec2Msec (ri.lastRecv raftPeerIdx)
    if lastSend = 0 then .error .EALREADY
    else
      let now := if clock < max lastRecv lastSend then max lastRecv lastSend else clock
      match type with
      | .recv => .ok (if lastRecv ≠ 0 then now - lastRecv else 0)
      | .send => .ok (if lastSend ≠ 0 then now - lastSend else 0)
      | .unackedSend => .ok (if lastSend > lastRecv then now - lastRecv else 0)

/-- The loop of `raft_net_get_most_recently_responsive_server`, with `k` rounds to go.  It carries
the best peer and its recency; `none` is the fatal error. -/
def responsiveScan (ri : CommTimes τ) (clock startPeer : Nat) : Nat → Nat × Nat → Option Nat
  | 0, best => some best.1
  | k + 1, best =>
      let idx := (ri.numMembers - (k + 1) + startPeer) % ri.numMembers
      match commRecency timespec2Msec ri idx .recv clock with
      | .error .EALREADY => responsiveScan ri clock startPeer k best
      | .error _ => none
      | .ok sinceLastRecv =>
          if sinceLastRecv < best.2 then responsiveScan ri clock startPeer k (idx, sinceLastRecv)
          else responsiveScan ri clock startPeer k best

/-- `raft_net_get_most_recently_responsive_server`. -/
def getMostRecentlyResponsiveServer (ri : CommTimes τ) (clock random : Nat) : Option Nat :=
  let startPeer := random % ri.numMembers
  responsiveScan timespec2Msec ri clock startPeer ri.numMembers (startPeer, 0)

end Recency

/-! ## Write supplements -/

/-- `struct raft_net_wr_supp`.  `compCb` stands for the function, and `serial` says for the record
which addition the item comes from. -/
structure WrSuppItem where
  supp : WrSupp
  compCb : Option Nat
  serial : Nat
deriving DecidableEq, Repr

/-- An item cleared by `memset`. -/
instance : Inhabited WrSuppItem := ⟨⟨⟨.write, none, [], []⟩, none, 0⟩⟩

/-- `struct raft_net_sm_write_supplements`. -/
structure WriteSupplements where
  nitems : Nat
  /-- The array.  Without one it is empty. -/
  ws : List WrSuppItem
  kvCrc : Nat
  kvCrcEnabled : Bool
deriving DecidableEq, Repr

/-- What is done to an item that is destroyed. -/
inductive Cleanup where
  | freeKey (serial : Nat)
  | freeValue (serial : Nat)
  | compCb (serial cb : Nat) (handle : Option String)
deriving DecidableEq, Repr

/-- `niova_reallocarray`, which succeeds.  What is new is not initialized. -/
def reallocarray (ws : List WrSuppItem) (n : Nat) : List WrSuppItem :=
  ws.take n ++ List.replicate (n - ws.length) default

/-- `raft_net_write_supp_new`, with the index of the new item.  `none` is a failed assertion. -/
def writeSuppNew (rnsws : WriteSupplements) (handle : Option String) :
    Option (WriteSupplements × Nat) :=
  if rnsws.nitems < RaftServer.netWrSuppMax then
    let idx := rnsws.nitems
    let ws := reallocarray rnsws.ws (idx + 1)
    let item : WrSuppItem := { (default : WrSuppItem) with supp := ⟨.write, handle, [], []⟩ }
    some ({ rnsws with ws := ws.set idx item, nitems := rnsws.nitems + 1 }, idx)
  else none

/-- `raft_net_write_supp_destroy`. -/
def writeSuppDestroy (ws : WrSuppItem) : List Cleanup :=
  [.freeKey ws.serial, .freeValue ws.serial] ++
    match ws.compCb with
    | some cb => [.compCb ws.serial cb ws.supp.handle]
    | none => []

/-- `raft_net_write_supp_add`, with memory for the key and the value. -/
def writeSuppAdd (ws : WrSuppItem) (op : WrSuppOp) (key : Option (List UInt8))
    (value : List UInt8) : Except Errno WrSuppItem :=
  match key with
  | none => .error .EINVAL
  | some [] => .error .EINVAL
  | some key => .ok { ws with supp := ⟨op, ws.supp.handle, key, value⟩ }

/-- `raft_net_sm_write_supplement_crc_update`. -/
def smWriteSupplementCrcUpdate [Externals] (rnsws : WriteSupplements) (ws : WrSuppItem) :
    WriteSupplements :=
  if rnsws.kvCrcEnabled = false ∨ ws.supp.hashed = false then rnsws
  else { rnsws with
    kvCrc := RaftServer.crcPart ws.supp.value (RaftServer.crcPart ws.supp.key rnsws.kvCrc) }

/-- `raft_net_sm_write_supplement_add` on a set that is there: the set afterwards and what is
returned.  The item is put on record as addition `serial`. -/
def smWriteSupplementAdd [Externals] (rnsws : WriteSupplements) (op : WrSuppOp)
    (handle : Option String) (compCb : Option Nat) (key : Option (List UInt8))
    (value : List UInt8) (serial : Nat) : Option (WriteSupplements × Except Errno Unit) :=
  if key = none ∨ key = some [] then some (rnsws, .error .EINVAL)
  else if rnsws.nitems ≥ RaftServer.netWrSuppMax then some (rnsws, .error .ENOSPC)
  else do
    let (rnsws, idx) ← writeSuppNew rnsws handle
    let ws := { rnsws.ws.getD idx default with compCb := compCb, serial := serial }
    match writeSuppAdd ws op key value with
    | .error rc => pure ({ rnsws with ws := rnsws.ws.set idx ws }, .error rc)
    | .ok ws =>
        pure (smWriteSupplementCrcUpdate { rnsws with ws := rnsws.ws.set idx ws } ws, .ok ())

/-- `raft_net_sm_write_supplement_destroy_internal`: the set afterwards and what was done to its
items. -/
def smWriteSupplementDestroyInternal (rnsws : WriteSupplements) (wsDestroy : Bool) :
    WriteSupplements × List Cleanup :=
  if rnsws.nitems = 0 then (rnsws, [])
  else
    (⟨0, [], 0, false⟩,
      if wsDestroy then
        (List.range rnsws.nitems).flatMap fun i => writeSuppDestroy (rnsws.ws.getD i default)
      else [])

/-- `raft_net_sm_write_supplement_destroy`. -/
def smWriteSupplementDestroy (rnsws : WriteSupplements) : WriteSupplements × List Cleanup :=
  smWriteSupplementDestroyInternal rnsws true

/-- The loop of `raft_net_sm_write_supplements_merge` that copies `n` items behind the `k` that are
there. -/
def copyItems (src : List WrSuppItem) (k : Nat) : Nat → List WrSuppItem → List WrSuppItem
  | 0, ws => ws
  | n + 1, ws => (copyItems src k n ws).set (k + n) (src.getD n default)

/-- `raft_net_sm_write_supplements_merge` on sets that are there and not the same: both sets
afterwards, what was done to items, and what is returned. -/
def smWriteSupplementsMerge (dest src : WriteSupplements) :
    WriteSupplements × WriteSupplements × List Cleanup × Except Errno Unit :=
  if src.nitems = 0 then (dest, src, [], .ok ())
  else
    let newTotal := dest.nitems + src.nitems
    if newTotal > RaftServer.netWrSuppMax then (dest, src, [], .error .E2BIG)
    else
      let ws := copyItems src.ws dest.nitems src.nitems (reallocarray dest.ws newTotal)
      let (src, cleanups) := smWriteSupplementDestroyInternal src false
      (⟨newTotal, ws, 0, false⟩, src, cleanups, .ok ())

/-- `raft_net_sm_write_supplement_enable_kv_crc`. -/
def smWriteSupplementEnableKvCrc (rnsws : WriteSupplements) (seed : Nat) : WriteSupplements :=
  { rnsws with kvCrc := seed, kvCrcEnabled := true }

/-! ### Calls on any number of sets -/

/-- A call on sets named by `ι`; `none` is a null pointer.  A set is not merged into itself. -/
inductive SuppCall (ι : Type) where
  | add (rnsws : Option ι) (op : WrSuppOp) (handle : Option String) (compCb : Option Nat)
      (key : Option (List UInt8)) (value : List UInt8)
  | merge (dest src : Option ι) (distinct : ∀ s, dest = some s → src ≠ some s)
  | destroy (rnsws : Option ι)
  | enableKvCrc (rnsws : Option ι) (seed : Nat)

/-- The sets, how many items were added, and what was done to those that were destroyed. -/
structure SuppSets (ι : Type) where
  sets : ι → WriteSupplements
  additions : Nat
  cleanups : List Cleanup

/-- All sets are empty. -/
def SuppSets.init {ι : Type} : SuppSets ι := ⟨fun _ => ⟨0, [], 0, false⟩, 0, []⟩

section Calls

variable {ι : Type} [DecidableEq ι] [Externals]

/-- A call, with what it returns.  `none` is a failed assertion. -/
def SuppSets.call (st : SuppSets ι) : SuppCall ι → Option (SuppSets ι × Except Errno Unit)
  | .add none .. => some (st, .error .EINVAL)
  | .add (some s) op handle compCb key value => do
      let (rnsws, rc) ←
        smWriteSupplementAdd (st.sets s) op handle compCb key value st.additions
      pure ({ st with
        sets := Function.update st.sets s rnsws
        additions := if rc.isOk then st.additions + 1 else st.additions }, rc)
  | .merge (some dest) (some src) _ =>
      let (d, s, cleanups, rc) := smWriteSupplementsMerge (st.sets dest) (st.sets src)
      some ({ st with
        sets := Function.update (Function.update st.sets dest d) src s
        cleanups := st.cleanups ++ cleanups }, rc)
  | .merge _ _ _ => some (st, .error .EINVAL)
  | .destroy none => some (st, .ok ())
  | .destroy (some s) =>
      let (rnsws, cleanups) := smWriteSupplementDestroy (st.sets s)
      some ({ st with
        sets := Function.update st.sets s rnsws
        cleanups := st.cleanups ++ cleanups }, .ok ())
  | .enableKvCrc none _ => some (st, .ok ())
  | .enableKvCrc (some s) seed =>
      some ({ st with
        sets := Function.update st.sets s (smWriteSupplementEnableKvCrc (st.sets s) seed) }, .ok ())

end Calls

/-! ## User ids -/

open Base

/-- `struct raft_net_client_user_id`.  The uuid makes up the first two words of the key. -/
structure ClientUserId where
  uuid : Uuid
  words : Fin 4 → UInt64
  version : Nat

/-- `RAFT_NET_CLIENT_USER_ID_V0_STRLEN_SIZE`. -/
def clientUserIdV0StrlenSize : Nat := 101

/-- `RAFT_NET_CLIENT_USER_ID_V0_STR_SEP`. -/
def clientUserIdV0StrSep : UInt8 := 58

/-- How the functions on user ids fail. -/
inductive UserIdErr where
  | EINVAL | EOPNOTSUPP | ENAMETOOLONG | ENOSPC
  /-- `REG_NOMATCH`. -/
  | noMatch
  /-- An assertion failed. -/
  | fatal
deriving DecidableEq, Repr

/-- `regexec` with `raftNetRncuiRegex`: a uuid and four hexadecimal numbers. -/
class RncuiRegex where
  regexec : List UInt8 → Bool
  regexec_iff : ∀ t, regexec t = true ↔ ∃ u ws, UuidForm u ∧ ws.length = 4 ∧
    (∀ w ∈ ws, w ≠ [] ∧ HexDigits w) ∧ t = [clientUserIdV0StrSep].intercalate (u :: ws)

/-- The words of the key, in the order they are compared in. -/
def ClientUserId.keyWords (rncui : ClientUserId) : List Nat :=
  [ofLeBytes (slice rncui.uuid.bytes 0 8), ofLeBytes (slice rncui.uuid.bytes 8 8)] ++
    List.ofFn fun i => (rncui.words i).toNat

/-- The loop of `raft_net_client_user_id_cmp`. -/
def cmpWords : List Nat → List Nat → Int
  | x :: xs, y :: ys => if x ≠ y then (if x < y then -1 else 1) else cmpWords xs ys
  | _, _ => 0

/-- `raft_net_client_user_id_cmp`.  `none` is a failed assertion. -/
def clientUserIdCmp (a b : ClientUserId) : Option Int :=
  if a.version = 0 ∧ b.version = 0 then some (cmpWords a.keyWords b.keyWords) else none

/-- `strtoull` with base 16, of a text of digits. -/
def strtoull (sub : List UInt8) : UInt64 := UInt64.ofNat (min (readHex 0 sub) (2 ^ 64 - 1))

/-- What `strtok_r` finds, one after the other. -/
def strtokAll (text : List UInt8) : List (List UInt8) :=
  (text.splitOn clientUserIdV0StrSep).filter fun sub => decide (sub ≠ [])

section UserIds

variable [UuidText]

/-- A user id in `RAFT_NET_CLIENT_USER_ID_FMT`. -/
def ClientUserId.text (rncui : ClientUserId) : List UInt8 :=
  UuidText.unparse rncui.uuid ++
    (List.ofFn fun i => clientUserIdV0StrSep :: hexText (rncui.words i).toNat).flatten

/-- `raft_net_client_user_id_to_string`: the buffer, and what is returned. -/
def clientUserIdToString (rncui : ClientUserId) (outStringLen : Nat) :
    List UInt8 × Except UserIdErr Unit :=
  if outStringLen = 0 then ([], .error .EINVAL)
  else
    let (outString, rc) := snprintf outStringLen rncui.text
    (outString, if rc > outStringLen - 1 then .error .ENOSPC else .ok ())

/-- The loop of `raft_net_client_user_id_parse`. -/
def parseSubs : Nat → List (List UInt8) → ClientUserId → Except UserIdErr ClientUserId
  | _, [], rncui => .ok rncui
  | 0, sub :: subs, rncui =>
      match UuidText.parse sub with
      | none => .error .EINVAL
      | some uuid => parseSubs 1 subs { rncui with uuid := uuid }
  | pos + 1, sub :: subs, rncui =>
      -- the word at `1 + (pos + 1)` of the key
      if h : 1 + (pos + 1) < 6 then
        parseSubs (pos + 2) subs
          { rncui with words := Function.update rncui.words ⟨pos, by omega⟩ (strtoull sub) }
      else .error .fatal

/-- `raft_net_client_user_id_parse`, with what is in `rncui` before.  The version is left alone. -/
def clientUserIdParse [RncuiRegex] (input : List UInt8) (rncui : ClientUserId) (version : Nat) :
    Except UserIdErr ClientUserId :=
  if version ≠ 0 then .error .EOPNOTSUPP
  else if min input.length clientUserIdV0StrlenSize = clientUserIdV0StrlenSize then
    .error .ENAMETOOLONG
  else
    let localStr := input.take (clientUserIdV0StrlenSize - 1)
    if RncuiRegex.regexec localStr = true then parseSubs 0 (strtokAll localStr) rncui
    else .error .noMatch

end UserIds

end RaftNet

end NiovaRaft
