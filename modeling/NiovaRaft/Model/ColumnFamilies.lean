import NiovaRaft.Base.CString
import NiovaRaft.Base.Decimal

/-!
# The table of column families

An application names the column families that it keeps in the database beside the log.  The names are
collected in a table before the server runs, and the column family of the log is always the first one.

A name comes as a pointer and a length: what is at the pointer is a list of bytes, and the name ends at
the first zero or at the length.  Handles are filled in when the database is opened and are not
modelled.  Whether there is memory is an input.
-/

namespace NiovaRaft

namespace RocksCf

open Base

def EINVAL : Int := 22
def ENOMEM : Int := 12
def ENOSPC : Int := 28
def EALREADY : Int := 114

/-- `RAFT_ROCKSDB_MAX_CF`. -/
def maxCf : Nat := 32

/-- `RAFT_ROCKSDB_MAX_CF_NAME_LEN`. -/
def maxCfNameLen : Nat := 4096

/-- The column family that is always there. -/
def defaultCf : List UInt8 := ascii "default".toList

/-- `struct raft_server_rocksdb_cf_table`. -/
structure CfTable where
  /-- The first `rsrcfe_num_cf` entries of `rsrcfe_cf_names`. -/
  cfNames : List (List UInt8)
deriving DecidableEq

/-- `rsrcfe_num_cf`. -/
def CfTable.numCf (cft : CfTable) : Nat := cft.cfNames.length

/-- `raft_server_rocksdb_add_cf_name` on a table.  The two allocations may fail. -/
def addCfName (cft : CfTable) (cfName : Option (List UInt8)) (cfNameLen : Nat)
    (defaultAllocated nameAllocated : Bool) : CfTable × Int :=
  match cfName with
  | none => (cft, -EINVAL)
  | some cfName =>
      if cfNameLen = 0 ∨ cfNameLen > maxCfNameLen then (cft, -EINVAL)
      else if cft.numCf = 0 ∧ defaultAllocated = false then (cft, -ENOMEM)
      else
        -- first, the default one
        let cft := if cft.numCf = 0 then ⟨[strndup defaultCf 7]⟩ else cft
        if cft.numCf ≥ maxCf then (cft, -ENOSPC)
        -- the loop starts at the second name
        else if (cft.cfNames.drop 1).any fun name => strncmp cfName name maxCf == 0 then
          (cft, -EALREADY)
        else if nameAllocated = false then (cft, -ENOMEM)
        else (⟨cft.cfNames ++ [strndup cfName cfNameLen]⟩, 0)

end RocksCf

end NiovaRaft
