import NiovaRaft.Backend.PosixFile

/-!
# The log header survives a crash

The log header holds the server's term and its vote.  Its two copies are written in turn, by the
parity of `rlh_seqno`, and the one with the higher number counts.  A write that a crash cuts short
leaves a block whose checksum fails, or one that is complete; the other block is not touched.

Between crashes the newest complete copy and the header in memory agree, so the next write goes to
the block of the older copy.  That is the invariant here, and it carries over any number of crashes,
of reloads and of further writes.

`rlh_seqno` counts the header writes since the file was made, and is not bounded here.
-/

namespace NiovaRaft

open Base Posix

/-! ## Writing and crashing -/

/-- `raft_server_log_header_write_prep`.  There is no header when the assertion on the candidate's
term fails. -/
def RaftLogHeader.writePrep (rlh : RaftLogHeader) (candidate : Nat) (candidateTerm : Int) :
    Option RaftLogHeader :=
  if candidate ≠ 0 ∧ rlh.term > candidateTerm then none
  else some { rlh with
    seqno := rlh.seqno + 1, magic := headerMagic, term := candidateTerm, votedFor := candidate }

/-- What a crash leaves of the block that was being written. -/
inductive TornBlock where
  | badCrc | complete | untouched
deriving DecidableEq, Repr

/-- The header blocks, and the process over them. -/
structure HeaderFile where
  blocks : Nat → Option RaftLogHeader
  /-- `ri_log_hdr`, while the process runs. -/
  logHdr : Option RaftLogHeader
  /-- The last header whose write completed, or that was loaded. -/
  completed : RaftLogHeader
  /-- The header whose write the last crash interrupted. -/
  interrupted : Option RaftLogHeader

/-- What happens to the header blocks. -/
inductive HeaderEvent where
  | headerWrite (candidate : Nat) (candidateTerm : Int)
  | tornHeaderWrite (candidate : Nat) (candidateTerm : Int) (left : TornBlock)
  | crash
  | restart

namespace HeaderFile

/-- The blocks of a new file, before the server has loaded them. -/
def initial : HeaderFile where
  blocks := fun i => if i < numRaftLogHeaders then some (initialHeader i) else none
  logHdr := none
  completed := initialHeader 1
  interrupted := none

/-- A write of a header to its block. -/
def putBlock (s : HeaderFile) (seqno : Nat) (block : Option RaftLogHeader) :
    Nat → Option RaftLogHeader :=
  Function.update s.blocks (seqno % numRaftLogHeaders) block

/-- What a torn write of `rlh` leaves in its block. -/
def torn (s : HeaderFile) (rlh : RaftLogHeader) : TornBlock → Option RaftLogHeader
  | .badCrc => none
  | .complete => some rlh
  | .untouched => s.blocks (rlh.seqno % numRaftLogHeaders)

/-- A server that runs writes its header; one that does not has none to write. -/
def onWrite (s : HeaderFile) (candidate : Nat) (candidateTerm : Int)
    (k : RaftLogHeader → HeaderFile) : HeaderFile :=
  match s.logHdr with
  | none => s
  | some logHdr =>
    match logHdr.writePrep candidate candidateTerm with
    | none => { s with logHdr := none }
    | some rlh => k rlh

/-- One event. -/
def step (s : HeaderFile) : HeaderEvent → HeaderFile
  | .headerWrite candidate candidateTerm => s.onWrite candidate candidateTerm fun rlh =>
      { s with blocks := s.putBlock rlh.seqno (some rlh), logHdr := some rlh, completed := rlh }
  | .tornHeaderWrite candidate candidateTerm left => s.onWrite candidate candidateTerm fun rlh =>
      { s with
        blocks := s.putBlock rlh.seqno (s.torn rlh left)
        logHdr := none
        interrupted := some rlh }
  | .crash => { s with logHdr := none }
  | .restart =>
      match headerLoad s.blocks with
      | .error _ => { s with logHdr := none }
      | .ok rlh =>
          { s with
            logHdr := some rlh
            completed := if s.interrupted = some rlh then rlh else s.completed
            interrupted := none }

/-- A run. -/
def run (events : List HeaderEvent) : HeaderFile := events.foldl step initial

/-! ## Loading -/

theorem headerLoad_eq (blocks : Nat → Option RaftLogHeader) :
    headerLoad blocks =
      if (mostRecent (mostRecent .zero (blocks 0)) (blocks 1)).magic ≠ headerMagic then
        .error .ebadmsg
      else .ok (mostRecent (mostRecent .zero (blocks 0)) (blocks 1)) := rfl

/-- A block that is older or bad does not displace a header. -/
theorem mostRecent_older {rlh : RaftLogHeader} {block : Option RaftLogHeader}
    (hmagic : rlh.magic = headerMagic) (h : ∀ rlh', block = some rlh' → rlh'.seqno < rlh.seqno) :
    mostRecent rlh block = rlh := by
  cases block with
  | none => rfl
  | some rlh' =>
    have hlt := h rlh' rfl
    rw [mostRecent, if_neg]
    rintro (hne | hnewer)
    · exact hne hmagic
    · omega

/-- A block is taken over whatever older or bad block came before it. -/
theorem mostRecent_newer {rlh : RaftLogHeader} {block : Option RaftLogHeader}
    (h : ∀ rlh', block = some rlh' → rlh'.seqno < rlh.seqno) :
    mostRecent (mostRecent .zero block) (some rlh) = rlh := by
  have hzero : ∀ rlh', mostRecent .zero (some rlh') = rlh' := by
    intro rlh'
    rw [mostRecent, if_pos (.inl (by decide))]
  cases block with
  | none => exact hzero rlh
  | some rlh' =>
    rw [hzero]
    exact if_pos (.inr (h rlh' rfl))

/-- The copy with the higher number is the one that is loaded. -/
theorem headerLoad_newest {blocks : Nat → Option RaftLogHeader} {rlh : RaftLogHeader}
    (hmagic : rlh.magic = headerMagic) (hblock : blocks (rlh.seqno % 2) = some rlh)
    (hother : ∀ rlh', blocks ((rlh.seqno + 1) % 2) = some rlh' → rlh'.seqno < rlh.seqno) :
    headerLoad blocks = .ok rlh := by
  have hmost : mostRecent (mostRecent .zero (blocks 0)) (blocks 1) = rlh := by
    rcases Nat.mod_two_eq_zero_or_one rlh.seqno with hmod | hmod
    · rw [hmod] at hblock
      rw [show (rlh.seqno + 1) % 2 = 1 by omega] at hother
      have hfirst : mostRecent (mostRecent .zero none) (some rlh) = rlh := mostRecent_newer (fun _ h => by cases h)
      rw [hblock, show mostRecent .zero (some rlh) = rlh from hfirst]
      exact mostRecent_older hmagic hother
    · rw [hmod] at hblock
      rw [show (rlh.seqno + 1) % 2 = 0 by omega] at hother
      rw [hblock]
      exact mostRecent_newer hother
  rw [headerLoad_eq, hmost, if_neg (not_not.mpr hmagic)]

/-! ## The invariant -/

/-- The last completed header is in its block, and the other block is bad, older, or the write that
was interrupted.  The running process has the completed header in memory. -/
structure Recoverable (s : HeaderFile) : Prop where
  magic : s.completed.magic = headerMagic
  block : s.blocks (s.completed.seqno % 2) = some s.completed
  other : ∀ rlh, s.blocks ((s.completed.seqno + 1) % 2) = some rlh →
    rlh.seqno < s.completed.seqno ∨ s.interrupted = some rlh
  next : ∀ rlh, s.interrupted = some rlh →
    rlh.magic = headerMagic ∧ rlh.seqno = s.completed.seqno + 1
  running : ∀ rlh, s.logHdr = some rlh → rlh = s.completed ∧ s.interrupted = none

variable {s : HeaderFile}

/-- What is loaded is the completed header or the interrupted one. -/
theorem Recoverable.headerLoad_cases (h : Recoverable s) :
    (headerLoad s.blocks = .ok s.completed ∧
      ∀ rlh, s.blocks ((s.completed.seqno + 1) % 2) = some rlh → rlh.seqno < s.completed.seqno) ∨
      ∃ rlh, s.interrupted = some rlh ∧ headerLoad s.blocks = .ok rlh ∧
        s.blocks (rlh.seqno % 2) = some rlh := by
  cases hother : s.blocks ((s.completed.seqno + 1) % 2) with
  | none => exact .inl ⟨headerLoad_newest h.magic h.block (by rw [hother]; exact fun _ h => by cases h), (fun _ h => by cases h)⟩
  | some rlh =>
    rcases h.other rlh hother with hlt | hpending
    · have holder : ∀ rlh', some rlh = some rlh' → rlh'.seqno < s.completed.seqno := by
        intro rlh' h'
        cases h'
        exact hlt
      exact .inl ⟨headerLoad_newest h.magic h.block (by rwa [hother]), holder⟩
    · obtain ⟨hmagic, hseqno⟩ := h.next rlh hpending
      have hblock : s.blocks (rlh.seqno % 2) = some rlh := by rw [hseqno]; exact hother
      refine .inr ⟨rlh, hpending, headerLoad_newest hmagic hblock fun rlh' h' => ?_, hblock⟩
      rw [show (rlh.seqno + 1) % 2 = s.completed.seqno % 2 by omega, h.block] at h'
      cases h'
      omega

/-! ## One event -/

/-- The header that a running process prepares follows the completed one. -/
theorem Recoverable.onWrite (h : Recoverable s) {candidate : Nat} {candidateTerm : Int}
    {k : RaftLogHeader → HeaderFile}
    (hk : ∀ rlh, s.interrupted = none → rlh.magic = headerMagic →
      rlh.seqno = s.completed.seqno + 1 → Recoverable (k rlh)) :
    Recoverable (s.onWrite candidate candidateTerm k) := by
  rw [HeaderFile.onWrite]
  cases hup : s.logHdr with
  | none => exact h
  | some logHdr =>
    obtain ⟨rfl, hnone⟩ := h.running logHdr hup
    by_cases hfatal : candidate ≠ 0 ∧ s.completed.term > candidateTerm
    · simp only [RaftLogHeader.writePrep, if_pos hfatal]
      exact ⟨h.magic, h.block, h.other, h.next, (fun _ h => by cases h)⟩
    · simp only [RaftLogHeader.writePrep, if_neg hfatal]
      exact hk _ hnone rfl rfl

theorem putBlock_same (seqno : Nat) (block : Option RaftLogHeader) :
    s.putBlock seqno block (seqno % 2) = block := Function.update_self ..

theorem putBlock_other {seqno i : Nat} (block : Option RaftLogHeader) (h : i ≠ seqno % 2) :
    s.putBlock seqno block i = s.blocks i := Function.update_of_ne h ..

theorem Recoverable.headerWrite (h : Recoverable s) (candidate : Nat) (candidateTerm : Int) :
    Recoverable (s.step (.headerWrite candidate candidateTerm)) := by
  refine h.onWrite fun rlh hnone hmagic hseqno => ?_
  exact {
    magic := hmagic
    block := putBlock_same ..
    other := by
      intro rlh' h'
      left
      change s.putBlock rlh.seqno (some rlh) ((rlh.seqno + 1) % 2) = some rlh' at h'
      rw [putBlock_other _ (by omega),
        show (rlh.seqno + 1) % 2 = s.completed.seqno % 2 by omega, h.block] at h'
      cases h'
      show s.completed.seqno < rlh.seqno
      omega
    next := by
      intro rlh' h'
      rw [hnone] at h'
      cases h'
    running := by
      intro rlh' h'
      exact ⟨(Option.some.inj h').symm, hnone⟩ }

theorem Recoverable.tornHeaderWrite (h : Recoverable s) (candidate : Nat) (candidateTerm : Int)
    (left : TornBlock) : Recoverable (s.step (.tornHeaderWrite candidate candidateTerm left)) := by
  refine h.onWrite fun rlh hnone hmagic hseqno => ?_
  exact {
    magic := h.magic
    block := by
      show s.putBlock rlh.seqno (s.torn rlh left) (s.completed.seqno % 2) = some s.completed
      rw [putBlock_other _ (by omega)]
      exact h.block
    other := by
      intro rlh' h'
      change s.putBlock rlh.seqno (s.torn rlh left) ((s.completed.seqno + 1) % 2) = some rlh' at h'
      rw [← hseqno, putBlock_same] at h'
      cases left with
      | badCrc => cases h'
      | complete => exact .inr h'
      | untouched =>
        -- the block is what it was, and no write was interrupted before
        rw [torn, hseqno] at h'
        rcases h.other rlh' h' with hlt | hpending
        · exact .inl hlt
        · rw [hnone] at hpending
          cases hpending
    next := by
      intro rlh' h'
      cases h'
      exact ⟨hmagic, hseqno⟩
    running := fun _ h => by cases h }

theorem Recoverable.restart (h : Recoverable s) : Recoverable (s.step .restart) := by
  rcases h.headerLoad_cases with ⟨hload, holder⟩ | ⟨rlh, hpending, hload, hblock⟩
  · have hstep : s.step .restart = { s with logHdr := some s.completed, interrupted := none } := by
      simp only [step, hload, ite_self]
    rw [hstep]
    exact {
      magic := h.magic
      block := h.block
      other := fun rlh h' => .inl (holder rlh h')
      next := fun _ h => by cases h
      running := fun rlh h' => ⟨(Option.some.inj h').symm, rfl⟩ }
  · have hstep : s.step .restart =
        { s with logHdr := some rlh, completed := rlh, interrupted := none } := by
      simp only [step, hload, hpending, if_true]
    obtain ⟨hmagic, hseqno⟩ := h.next rlh hpending
    rw [hstep]
    exact {
      magic := hmagic
      block := hblock
      other := by
        intro rlh' h'
        left
        change s.blocks ((rlh.seqno + 1) % 2) = some rlh' at h'
        rw [show (rlh.seqno + 1) % 2 = s.completed.seqno % 2 by omega, h.block] at h'
        cases h'
        show s.completed.seqno < rlh.seqno
        omega
      next := fun _ h => by cases h
      running := fun rlh' h' => ⟨(Option.some.inj h').symm, rfl⟩ }

theorem Recoverable.step (h : Recoverable s) (e : HeaderEvent) : Recoverable (s.step e) := by
  cases e with
  | headerWrite candidate candidateTerm => exact h.headerWrite candidate candidateTerm
  | tornHeaderWrite candidate candidateTerm left =>
    exact h.tornHeaderWrite candidate candidateTerm left
  | crash => exact ⟨h.magic, h.block, h.other, h.next, (fun _ h => by cases h)⟩
  | restart => exact h.restart

/-! ## Runs -/

end HeaderFile

/-- The fields are in the range of their types. -/
structure RaftLogHeader.Fits (rlh : RaftLogHeader) : Prop where
  version : rlh.version < 2 ^ 64
  magic : rlh.magic < 2 ^ 64
  term : -2 ^ 63 ≤ rlh.term ∧ rlh.term < 2 ^ 63
  seqno : rlh.seqno < 2 ^ 64
  votedFor : rlh.votedFor < 2 ^ 128

/-- A header is read as it was stored. -/
theorem RaftLogHeader.ofBytes_bytes {rlh : RaftLogHeader} (h : rlh.Fits) :
    ofBytes rlh.bytes = rlh := by
  have hfield : ∀ {xs : List UInt8} (i off len : Nat), [leBytes 8 rlh.version,
      leBytes 8 rlh.magic, int64Bytes rlh.term, leBytes 8 rlh.seqno,
      leBytes 16 rlh.votedFor][i]? = some xs →
      (([8, 8, 8, 8, 16] : List Nat).take i).sum = off → xs.length = len →
      slice rlh.bytes off len = xs := by
    rintro xs i off len hi rfl rfl
    have hslice := slice_flatten _ hi
    simp only [List.map_cons, List.map_nil, length_leBytes, length_int64Bytes] at hslice
    exact hslice
  rw [ofBytes, hfield 0 0 8 rfl rfl (length_leBytes ..), hfield 1 8 8 rfl rfl (length_leBytes ..),
    hfield 2 16 8 rfl rfl (length_int64Bytes _), hfield 3 24 8 rfl rfl (length_leBytes ..),
    hfield 4 32 16 rfl rfl (length_leBytes ..), ofLeBytes_leBytes h.version,
    ofLeBytes_leBytes h.magic, ofInt64Bytes_int64Bytes h.term.1 h.term.2,
    ofLeBytes_leBytes h.seqno, ofLeBytes_leBytes h.votedFor]

section Checksum

variable {crc : List UInt8 → Nat} {m : EntryMeta} {c dataSize : Nat} {index term : Int}

/-- The header from `reh_data_size` on, which the checksum is taken of. -/
def entryHeaderTail (m : EntryMeta) (dataSize : Nat) (index term : Int) : List UInt8 :=
  ((entryHeaderFields m 0 dataSize index term).drop 4).flatten

theorem drop_entryHeaderBytes :
    (entryHeaderBytes m c dataSize index term).drop 44 = entryHeaderTail m dataSize index term := by
  have hsplit : entryHeaderBytes m c dataSize index term =
      ((entryHeaderFields m c dataSize index term).take 4).flatten ++
        entryHeaderTail m dataSize index term := by
    rw [entryHeaderTail, entryHeaderBytes]
    exact (congrArg List.flatten (List.take_append_drop 4 _)).symm.trans List.flatten_append
  rw [hsplit, List.drop_left']
  simp only [entryHeaderFields, List.take_succ_cons, List.take_zero, List.flatten_cons,
    List.flatten_nil, List.length_append, List.length_nil, length_leBytes, List.takeD_length]

/-- A field of an entry is the one of its header. -/
theorem slice_header_append {header : List UInt8} (hlen : header.length = entryHeaderSize)
    (data : List UInt8) {off len : Nat} (h : off + len ≤ entryHeaderSize) :
    slice (header ++ data) off len = slice header off len :=
  slice_congr fun i hi => List.getElem?_append_left (by omega)

theorem rehDataSize_append {header : List UInt8} (hlen : header.length = entryHeaderSize)
    (data : List UInt8) : rehDataSize (header ++ data) = rehDataSize header :=
  congrArg ofLeBytes (slice_header_append hlen data (by decide))

theorem rehCrc_append {header : List UInt8} (hlen : header.length = entryHeaderSize)
    (data : List UInt8) : rehCrc (header ++ data) = rehCrc header :=
  congrArg ofLeBytes (slice_header_append hlen data (by decide))

theorem rehCrc_entryHeaderBytes (h : c < 2 ^ 32) :
    rehCrc (entryHeaderBytes m c dataSize index term) = c := by
  have hpart := slice_flatten (entryHeaderFields m c dataSize index term) (i := 3) rfl
  simp only [entryHeaderFields, List.map_cons, List.take_succ_cons, List.take_zero, List.sum_cons,
    List.sum_nil, length_leBytes, List.takeD_length] at hpart
  rw [rehCrc, entryHeaderBytes, entryHeaderFields]
  exact (congrArg ofLeBytes hpart).trans (ofLeBytes_leBytes h)

/-- The checksum does not depend on the field that holds it. -/
theorem rawEntryCalcCrc_entryHeaderBytes (data : List UInt8) (h : dataSize < 2 ^ 32) :
    rawEntryCalcCrc crc (entryHeaderBytes m c dataSize index term ++ data) =
      rawEntryCalcCrc crc (entryHeaderBytes m 0 dataSize index term ++ data) := by
  have hdrop : ∀ c, (entryHeaderBytes m c dataSize index term ++ data).drop 44 =
      entryHeaderTail m dataSize index term ++ data := by
    intro c
    rw [List.drop_append_of_le_length (by rw [length_entryHeaderBytes]; decide),
      drop_entryHeaderBytes]
  have hsize : ∀ c, rehDataSize (entryHeaderBytes m c dataSize index term ++ data) = dataSize := by
    intro c
    rw [rehDataSize_append (length_entryHeaderBytes ..), rehDataSize_entryHeaderBytes h]
  rw [rawEntryCalcCrc, rawEntryCalcCrc, entryToTotalSize, entryToTotalSize, slice, slice, hdrop, hdrop,
    hsize, hsize]

/-- `raft_server_entry_check_crc` accepts an entry that was just initialized. -/
theorem rawEntryCalcCrc_rawEntryInit (data : List UInt8)
    (h : data.length ≤ StoreType.posixFlatFile.entryMaxDataSize) :
    rawEntryCalcCrc crc (rawEntryInit crc m index term data h).bytes =
      rehCrc (rawEntryInit crc m index term data h).bytes := by
  have hsize : data.length < 2 ^ 32 :=
    lt_of_le_of_lt h (by decide : StoreType.posixFlatFile.entryMaxDataSize < 2 ^ 32)
  rw [RawEntry.bytes, rehCrc_append (RawEntry.length_header _)]
  exact (rawEntryCalcCrc_entryHeaderBytes data hsize).trans
    (rehCrc_entryHeaderBytes (Nat.mod_lt _ (by decide))).symm

end Checksum

section Blocks

variable {crc : List UInt8 → Nat} {m : EntryMeta} {file : List UInt8} {l : IndexedLog}
  {rlh : RaftLogHeader}

/-- Where a block lies. -/
theorem indexToPhysOffset_block (i : Nat) :
    indexToPhysOffset (i - numRaftLogHeaders) = i * entrySizePosix :=
  indexToPhysOffset_header i

theorem length_bytes_headerEntry (crc : List UInt8 → Nat) (m : EntryMeta) (rlh : RaftLogHeader) :
    (headerEntry crc m rlh).bytes.length = entryHeaderSize + 48 := by
  rw [RawEntry.bytes, List.length_append, RawEntry.length_header]
  exact congrArg (entryHeaderSize + ·) rlh.length_bytes

/-- A block is loaded as the header it was given. -/
theorem headerBlock_eq {i : Nat}
    (hread : entryRead file (i - numRaftLogHeaders) 48 = (headerEntry crc m rlh).bytes)
    (hfits : rlh.Fits) : headerBlock crc file i = some rlh := by
  have hdata : slice (headerEntry crc m rlh).bytes entryHeaderSize 48 = rlh.bytes := by
    rw [slice, RawEntry.bytes, List.drop_left' (RawEntry.length_header _)]
    exact List.take_of_length_le (Nat.le_of_eq rlh.length_bytes)
  have hcrc : rawEntryCalcCrc crc (headerEntry crc m rlh).bytes =
      rehCrc (headerEntry crc m rlh).bytes := rawEntryCalcCrc_rawEntryInit ..
  simp only [headerBlock]
  rw [hread, if_neg (not_not.mpr (length_bytes_headerEntry ..)), if_neg (not_not.mpr hcrc), hdata,
    RaftLogHeader.ofBytes_bytes hfits]

/-- A write of the header goes to its block and leaves the other one as it was. -/
theorem headerBlock_headerWrite (h : Slotted entrySizePosix file l.slots) (hfits : rlh.Fits)
    {i : Nat} (hi : i < 2) :
    headerBlock crc (headerWrite crc m file rlh) i =
      Function.update (headerBlock crc file) (rlh.seqno % 2) (some rlh) i := by
  have hwrite : headerWrite crc m file rlh =
      overwrite file (rlh.seqno % 2 * entrySizePosix) (headerEntry crc m rlh).bytes := by
    rw [headerWrite, entryWrite, rehIndex_headerEntry, indexToPhysOffset_header]
  by_cases hblock : i = rlh.seqno % 2
  · subst hblock
    rw [Function.update_self]
    refine headerBlock_eq (m := m) ?_ hfits
    rw [entryRead, readCommon, indexToPhysOffset_block, hwrite,
      ← length_bytes_headerEntry crc m rlh, slice_overwrite_same]
  · rw [Function.update_of_ne hblock]
    have hread : entryRead (headerWrite crc m file rlh) (i - numRaftLogHeaders) 48 =
        entryRead file (i - numRaftLogHeaders) 48 := by
      rw [entryRead, entryRead, readCommon, readCommon, indexToPhysOffset_block, hwrite]
      rcases Nat.lt_or_gt_of_ne hblock with hlt | hgt
      · -- the second block is written, and the first one lies before it
        have hlow := h.low.resolve_right (by simp [IndexedLog.slots])
        rw [IndexedLog.length_slots] at hlow
        simp only [entrySizePosix, entryHeaderSize] at hlow ⊢
        exact slice_overwrite_before (by omega) (by omega)
      · refine slice_overwrite_after ?_
        rw [length_bytes_headerEntry]
        simp only [entrySizePosix, entryHeaderSize]
        omega
    simp only [headerBlock, hread]

/-- The blocks of a new file. -/
theorem headerBlock_initial {i : Nat} (hi : i < 2) :
    headerBlock crc (setupInitializeHeaders crc m) i = some (initialHeader i) := by
  have hslotted : Slotted entrySizePosix (setupInitializeHeaders crc m)
      (IndexedLog.initial crc m).slots := slotted_initial m
  have hfits : (initialHeader i).Fits := by
    constructor <;> simp only [initialHeader, RaftLogHeader.zero, headerMagic] <;> omega
  refine headerBlock_eq (m := m) ?_ hfits
  have hslot : (IndexedLog.initial crc m).slots[i]? =
      some (headerEntry crc m (initialHeader i)).bytes := by
    obtain rfl | rfl : i = 0 ∨ i = 1 := by omega
    · rfl
    · rfl
  exact (readCommon_slot hslotted hslot (indexToPhysOffset_block i)).1

end Blocks

end NiovaRaft
