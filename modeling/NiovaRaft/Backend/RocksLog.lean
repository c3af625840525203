import NiovaRaft.Backend.RocksKeys
import NiovaRaft.Backend.PosixFile

/-!
# The keys of the database refine a segment of the log

The database of the RocksDB backend against what it is for: a run of consecutive entries.  Whatever
is appended, cut off at the end and reaped at the front, between the application's own writes, an
index is read as the entry that was last written for it, and the two ends of the log are found from
the keys alone.

Between `a1_hdr.` and `z0_last.` there are only the database's own records and the two keys of each
entry of the segment.  A range of keys begins and ends with a key of the lower suffix, so it takes an
entry's header whenever it takes the entry's data.
-/

namespace NiovaRaft

open Base

namespace Rocks

/-! ## The segment -/

/-- Consecutive entries of a log. -/
structure LogSegment where
  lowest : Nat
  entries : List RocksEntry

namespace LogSegment

/-- The entry at an index. -/
def get? (seg : LogSegment) (i : Nat) : Option RocksEntry :=
  if seg.lowest ≤ i then seg.entries[i - seg.lowest]? else none

/-- The index past the last entry. -/
def endIdx (seg : LogSegment) : Nat := seg.lowest + seg.entries.length

/-- One more entry.  In a log without entries it is the lowest one. -/
def append (seg : LogSegment) (re : RocksEntry) : LogSegment :=
  if seg.entries = [] then ⟨(rehIndex re.header).toNat, [re]⟩
  else { seg with entries := seg.entries ++ [re] }

/-- The entries below an index. -/
def truncate (seg : LogSegment) (entryIdx : Nat) : LogSegment :=
  { seg with entries := seg.entries.take (entryIdx - seg.lowest) }

/-- The entries from an index on. -/
def reap (seg : LogSegment) (entryIdx : Nat) : LogSegment :=
  ⟨max seg.lowest entryIdx, seg.entries.drop (entryIdx - seg.lowest)⟩

variable {seg : LogSegment}

theorem get?_of_nil (h : seg.entries = []) (i : Nat) : seg.get? i = none := by
  simp [get?, h]

theorem get?_isSome {i : Nat} : (seg.get? i).isSome ↔ seg.lowest ≤ i ∧ i < seg.endIdx := by
  rw [get?, endIdx]
  split
  · rw [Option.isSome_iff_ne_none, Ne, List.getElem?_eq_none_iff]
    omega
  · simp only [Option.isSome_none, Bool.false_eq_true, false_iff]
    omega

theorem get?_append {re : RocksEntry}
    (h : seg.entries = [] ∨ rehIndex re.header = seg.endIdx) (j : Nat) :
    (seg.append re).get? j = if j = (rehIndex re.header).toNat then some re else seg.get? j := by
  by_cases hnil : seg.entries = []
  · rw [append, if_pos hnil, get?_of_nil hnil]
    show (if (rehIndex re.header).toNat ≤ j then [re][j - (rehIndex re.header).toNat]? else none) = _
    by_cases hj : j = (rehIndex re.header).toNat
    · rw [if_pos hj, if_pos (Nat.le_of_eq hj.symm), hj, Nat.sub_self]
      rfl
    · rw [if_neg hj]
      split
      · rw [List.getElem?_eq_none (by rw [List.length_singleton]; omega)]
      · rfl
  · have hend := h.resolve_left hnil
    rw [append, if_neg hnil, hend, Int.toNat_natCast, get?, get?, endIdx]
    by_cases hle : seg.lowest ≤ j
    · simp only [if_pos hle]
      by_cases hj : j = seg.lowest + seg.entries.length
      · rw [if_pos hj, hj, Nat.add_sub_cancel_left, List.getElem?_concat_length]
      · rw [if_neg hj]
        rcases Nat.lt_or_ge (j - seg.lowest) seg.entries.length with hlt | hge
        · rw [List.getElem?_append_left hlt]
        · rw [List.getElem?_eq_none hge, List.getElem?_eq_none (by simp; omega)]
    · simp only [if_neg hle]
      rw [if_neg (by omega)]

/-- Truncating removes the entries from an index on, and no others. -/
theorem get?_truncate (entryIdx j : Nat) :
    (seg.truncate entryIdx).get? j = if entryIdx ≤ j then none else seg.get? j := by
  rw [truncate, get?, get?]
  by_cases hle : seg.lowest ≤ j
  · simp only [if_pos hle]
    split
    · rw [List.getElem?_eq_none]
      rw [List.length_take]
      omega
    · rw [List.getElem?_take_of_lt (by omega)]
  · simp [if_neg hle]

/-- Reaping removes the entries below an index, and no others. -/
theorem get?_reap (entryIdx j : Nat) :
    (seg.reap entryIdx).get? j = if j < entryIdx then none else seg.get? j := by
  rw [reap, get?, get?]
  by_cases hle : seg.lowest ≤ j
  · by_cases hlt : j < entryIdx
    · rw [if_neg (by simp only; omega), if_pos hlt]
    · rw [if_pos (by simp only; omega), if_neg hlt, if_pos hle, List.getElem?_drop]
      congr 1
      simp only
      omega
  · rw [if_neg (by simp only; omega), if_neg hle, ite_self]

end LogSegment

/-! ## What the database stands for -/

/-- The keys of an application: none of the log's, and not the marker of the log's end. -/
def AppKey (endMarker key : Key) : Prop := ¬InLog key ∧ key ≠ endMarker

/-- The database holds the segment, and nothing else of a log. -/
structure Represents (endMarker : Key) (db : RocksDb) (seg : LogSegment) : Prop where
  index : ∀ i re, seg.get? i = some re → i < 10 ^ 16 ∧ rehIndex re.header = i
  header : ∀ i re, seg.get? i = some re → db.get (entryHeaderKey i) = some re.header
  data : ∀ i re, seg.get? i = some re → db.get (entryKey i) = some (storedData re)
  only : ∀ key, InLog key → (db.get key).isSome →
    headerEnd <+: key ∨ ∃ i, (seg.get? i).isSome ∧ (key = entryHeaderKey i ∨ key = entryKey i)
  uuid : (db.get uuidKey).isSome
  marker : (db.get endMarker).isSome

/-- The operations on the database while the server runs. -/
inductive RocksOp where
  | entryWrite (re : RocksEntry) (ws : List WrSupp)
  | smApplyOpt (lastApplied : List UInt8) (ws : List WrSupp)
  | logTruncate (entryIdx : Nat)
  | logReap (entryIdx : Nat)

namespace RocksOp

/-- An operation on the database. -/
def onDb (db : RocksDb) : RocksOp → RocksDb
  | entryWrite re ws => Rocks.entryWrite db re ws
  | smApplyOpt lastApplied ws => Rocks.smApplyOpt db lastApplied ws
  | logTruncate entryIdx => Rocks.logTruncate db entryIdx
  | logReap entryIdx => Rocks.logReap db entryIdx

/-- The same operation on the segment. -/
def onSegment (seg : LogSegment) : RocksOp → LogSegment
  | entryWrite re _ => seg.append re
  | smApplyOpt _ _ => seg
  | logTruncate entryIdx => seg.truncate entryIdx
  | logReap entryIdx => seg.reap entryIdx

/-- Entries are written one after the other, and the application keeps to its keys. -/
def Admitted (endMarker : Key) (seg : LogSegment) : RocksOp → Prop
  | entryWrite re ws => rehIndex re.header < 10 ^ 16 ∧
      (seg.entries = [] ∨ rehIndex re.header = seg.endIdx) ∧ ∀ w ∈ ws, AppKey endMarker w.key
  | smApplyOpt _ ws => ∀ w ∈ ws, AppKey endMarker w.key
  | logTruncate entryIdx => entryIdx < 10 ^ 16
  | logReap entryIdx => entryIdx < 10 ^ 16

end RocksOp

section Step

variable {endMarker : Key} {db db' : RocksDb} {seg : LogSegment}

/-- A write of the application leaves other keys alone. -/
theorem get_writeSupplementsPut {ws : List WrSupp} {key : Key} (h : ∀ w ∈ ws, w.key ≠ key) :
    (writeSupplementsPut db ws).get key = db.get key := by
  induction ws generalizing db with
  | nil => rfl
  | cons w ws ih =>
    have hw : key ≠ w.key := fun heq => h w (List.mem_cons_self ..) heq.symm
    rw [writeSupplementsPut, List.foldl_cons]
    refine (ih fun w' hw' => h w' (List.mem_cons_of_mem _ hw')).trans ?_
    cases w with
    | write key' value => exact OrderedStore.get_put_of_ne hw
    | delete key' => exact OrderedStore.get_delete.trans (if_neg hw)

/-- Databases that agree on the log and on its end marker stand for the same segment. -/
theorem Represents.congr (h : Represents endMarker db seg)
    (hlog : ∀ key, InLog key → db'.get key = db.get key)
    (hmarker : db'.get endMarker = db.get endMarker) : Represents endMarker db' seg where
  index := h.index
  header i re hi := (hlog _ (inLog_entryKeyWith ..)).trans (h.header i re hi)
  data i re hi := (hlog _ (inLog_entryKeyWith ..)).trans (h.data i re hi)
  only key hkey hget := h.only key hkey (by rwa [hlog key hkey] at hget)
  uuid := by
    rw [hlog uuidKey (inLog_headerEnd_append _)]
    exact h.uuid
  marker := by
    rw [hmarker]
    exact h.marker

theorem Represents.writeSupplementsPut (h : Represents endMarker db seg) {ws : List WrSupp}
    (hws : ∀ w ∈ ws, AppKey endMarker w.key) :
    Represents endMarker (writeSupplementsPut db ws) seg := by
  refine h.congr (fun key hkey => get_writeSupplementsPut fun w hw heq => ?_)
    (get_writeSupplementsPut fun w hw => (hws w hw).2)
  exact (hws w hw).1 (heq ▸ hkey)

/-- The records of the database are none of its log. -/
theorem Represents.putRecord (hmarker : lastEntry <+: endMarker) (h : Represents endMarker db seg)
    (x value : List UInt8) : Represents endMarker (db.put (headerEnd ++ x) value) seg := by
  have hkeep : ∀ key, key ≠ headerEnd ++ x → (db.put (headerEnd ++ x) value).get key = db.get key :=
    fun key hne => OrderedStore.get_put_of_ne hne
  exact {
    index := h.index
    header := fun i re hi =>
      (hkeep _ (headerEnd_append_ne_entryKeyWith _ _ i).symm).trans (h.header i re hi)
    data := fun i re hi =>
      (hkeep _ (headerEnd_append_ne_entryKeyWith _ _ i).symm).trans (h.data i re hi)
    only := by
      intro key hkey hget
      by_cases heq : key = headerEnd ++ x
      · exact .inl (heq ▸ List.prefix_append ..)
      · rw [hkeep key heq] at hget
        exact h.only key hkey hget
    uuid := by
      rw [OrderedStore.get_put]
      split
      · rfl
      · exact h.uuid
    marker := by
      rw [hkeep endMarker (ne_of_inLog hmarker (inLog_headerEnd_append _))]
      exact h.marker }

theorem Represents.smApplyOpt (hmarker : lastEntry <+: endMarker) (h : Represents endMarker db seg)
    (lastApplied : List UInt8) {ws : List WrSupp} (hws : ∀ w ∈ ws, AppKey endMarker w.key) :
    Represents endMarker (smApplyOpt db lastApplied ws) seg :=
  (h.putRecord hmarker _ lastApplied).writeSupplementsPut hws

/-- The keys of other entries, and those that are none of an entry, are left alone by a write. -/
theorem get_entryPuts {i : Nat} {header value : List UInt8} {key : Key}
    (hheader : key ≠ entryHeaderKey i) (hentry : key ≠ entryKey i) :
    ((db.put (entryHeaderKey i) header).put (entryKey i) value).get key = db.get key := by
  rw [OrderedStore.get_put_of_ne hentry, OrderedStore.get_put_of_ne hheader]

/-- The write of an entry, in any log that has the entry at its index and the others as before. -/
theorem Represents.entryWrite_of_get (hmarker : lastEntry <+: endMarker)
    (h : Represents endMarker db seg) {seg' : LogSegment} {re : RocksEntry} {ws : List WrSupp}
    (hbound : rehIndex re.header < 10 ^ 16) (hws : ∀ w ∈ ws, AppKey endMarker w.key)
    (hget : ∀ j, seg'.get? j =
      if j = (rehIndex re.header).toNat then some re else seg.get? j) :
    Represents endMarker (Rocks.entryWrite db re ws) seg' := by
  have hnonneg := re.index_nonneg
  refine Represents.writeSupplementsPut ?_ hws
  generalize hidx : (rehIndex re.header).toNat = n at hget
  exact {
    index := by
      intro i re' hi
      rw [hget] at hi
      split at hi
      · next heq =>
        cases hi
        omega
      · exact h.index i re' hi
    header := by
      intro i re' hi
      rw [hget] at hi
      split at hi
      · next heq =>
        cases hi
        rw [heq, OrderedStore.get_put_of_ne (entryKey_ne_entryHeaderKey n n).symm,
          OrderedStore.get_put_self]
      · next hne =>
        rw [get_entryPuts (mt entryHeaderKey_inj.mp hne) (entryKey_ne_entryHeaderKey n i).symm]
        exact h.header i re' hi
    data := by
      intro i re' hi
      rw [hget] at hi
      split at hi
      · next heq =>
        cases hi
        rw [heq, OrderedStore.get_put_self]
      · next hne =>
        rw [get_entryPuts (entryKey_ne_entryHeaderKey i n) (mt entryKey_inj.mp hne)]
        exact h.data i re' hi
    only := by
      intro key hkey hsome
      have hnew : (seg'.get? n).isSome := by
        rw [hget, if_pos rfl]
        rfl
      by_cases hheader : key = entryHeaderKey n
      · exact .inr ⟨n, hnew, .inl hheader⟩
      by_cases hentry : key = entryKey n
      · exact .inr ⟨n, hnew, .inr hentry⟩
      rw [get_entryPuts hheader hentry] at hsome
      rcases h.only key hkey hsome with hrec | ⟨i, hi, hkeys⟩
      · exact .inl hrec
      · refine .inr ⟨i, ?_, hkeys⟩
        rw [hget]
        split
        · rfl
        · exact hi
    uuid := by
      have hne : ∀ c, uuidKey ≠ entryKeyWith c n := fun c => headerEnd_append_ne_entryKeyWith _ c n
      rw [get_entryPuts (hne _) (hne _)]
      exact h.uuid
    marker := by
      rw [get_entryPuts (ne_of_inLog hmarker (inLog_entryKeyWith ..))
        (ne_of_inLog hmarker (inLog_entryKeyWith ..))]
      exact h.marker }

theorem Represents.entryWrite (hmarker : lastEntry <+: endMarker)
    (h : Represents endMarker db seg) {re : RocksEntry} {ws : List WrSupp}
    (hop : (RocksOp.entryWrite re ws).Admitted endMarker seg) :
    Represents endMarker (entryWrite db re ws) (seg.append re) := by
  obtain ⟨hbound, hnext, hws⟩ := hop
  exact h.entryWrite_of_get hmarker hbound hws (LogSegment.get?_append hnext)

/-- A range of the log is deleted that takes both keys of an entry or none. -/
theorem Represents.deleteRange {seg' : LogSegment} {lo hi : Key} {gone : Nat → Prop}
    [DecidablePred gone] (hmarker : lastEntry <+: endMarker) (h : Represents endMarker db seg)
    (hlo : ∀ x, headerEnd ++ x < lo) (hhi : hi ≤ lastEntry)
    (hseg : ∀ j, seg'.get? j = if gone j then none else seg.get? j)
    (hrange : ∀ c, c = 101 ∨ c = 104 → ∀ j < 10 ^ 16,
      ((lo ≤ entryKeyWith c j ∧ entryKeyWith c j < hi) ↔ gone j)) :
    Represents endMarker (db.deleteRange lo hi) seg' := by
  have hstays : ∀ {j : Nat} {re : RocksEntry}, seg'.get? j = some re →
      ¬gone j ∧ seg.get? j = some re := by
    intro j re hj
    rw [hseg] at hj
    split at hj
    · cases hj
    · next hgone => exact ⟨hgone, hj⟩
  have hkept : ∀ c, c = 101 ∨ c = 104 → ∀ {j : Nat} {re : RocksEntry}, seg'.get? j = some re →
      (db.deleteRange lo hi).get (entryKeyWith c j) = db.get (entryKeyWith c j) := by
    intro c hc j re hj
    obtain ⟨hgone, hold⟩ := hstays hj
    rw [OrderedStore.get_deleteRange, if_neg]
    rwa [hrange c hc j (h.index j re hold).1]
  exact {
    index := fun i re hi => h.index i re (hstays hi).2
    header := fun i re hi => (hkept 104 (.inr rfl) hi).trans (h.header i re (hstays hi).2)
    data := fun i re hi => (hkept 101 (.inl rfl) hi).trans (h.data i re (hstays hi).2)
    only := by
      intro key hkey hsome
      rw [OrderedStore.get_deleteRange] at hsome
      split at hsome
      · cases hsome
      next hout =>
        rcases h.only key hkey hsome with hrec | ⟨i, hi', hkeys⟩
        · exact .inl hrec
        · refine .inr ⟨i, ?_, hkeys⟩
          obtain ⟨re, hre⟩ := Option.isSome_iff_exists.mp hi'
          have hbound := (h.index i re hre).1
          have hgone : ¬gone i := by
            rcases hkeys with rfl | rfl
            · exact fun hg => hout ((hrange 104 (.inr rfl) i hbound).mpr hg)
            · exact fun hg => hout ((hrange 101 (.inl rfl) i hbound).mpr hg)
          rw [hseg, if_neg hgone]
          exact hi'
    uuid := by
      rw [OrderedStore.get_deleteRange, if_neg fun hin => absurd hin.1 (not_le_of_gt (hlo _))]
      exact h.uuid
    marker := by
      rw [OrderedStore.get_deleteRange, if_neg]
      · exact h.marker
      · intro hin
        exact absurd hin.2 (not_lt_of_ge (le_trans hhi (lastEntry_le_key hmarker))) }

theorem Represents.logTruncate (hmarker : lastEntry <+: endMarker)
    (h : Represents endMarker db seg) {entryIdx : Nat} (hidx : entryIdx < 10 ^ 16) :
    Represents endMarker (logTruncate db entryIdx) (seg.truncate entryIdx) := by
  refine h.deleteRange hmarker (fun x => headerEnd_lt_entryKeyWith ..) (le_refl _)
    (LogSegment.get?_truncate entryIdx) fun c hc j hj => ?_
  rw [entryKey_le_iff hc hidx hj]
  exact and_iff_left (inLog_entryKeyWith c j).2

theorem Represents.logReap (hmarker : lastEntry <+: endMarker)
    (h : Represents endMarker db seg) {entryIdx : Nat} (hidx : entryIdx < 10 ^ 16) :
    Represents endMarker (logReap db entryIdx) (seg.reap entryIdx) := by
  refine h.deleteRange hmarker (fun x => headerEnd_lt_entryKeyWith ..)
    (le_of_lt (inLog_entryKeyWith ..).2) (LogSegment.get?_reap entryIdx) fun c hc j hj => ?_
  rw [entryKey_le_iff hc (by decide) hj, ← not_le, entryKey_le_iff hc hidx hj]
  omega

/-- Every operation does to the database what it does to the segment. -/
theorem Represents.onDb (hmarker : lastEntry <+: endMarker) (h : Represents endMarker db seg)
    {op : RocksOp} (hop : op.Admitted endMarker seg) :
    Represents endMarker (op.onDb db) (op.onSegment seg) := by
  cases op with
  | entryWrite re ws => exact h.entryWrite hmarker hop
  | smApplyOpt lastApplied ws => exact h.smApplyOpt hmarker lastApplied hop
  | logTruncate entryIdx => exact h.logTruncate hmarker hop
  | logReap entryIdx => exact h.logReap hmarker hop

/-! ## Reading -/

theorem Represents.get_entryHeaderKey (h : Represents endMarker db seg) (i : Nat) :
    db.get (entryHeaderKey i) = (seg.get? i).map (·.header) := by
  cases hi : seg.get? i with
  | some re => exact h.header i re hi
  | none =>
    rw [Option.map_none, ← Option.not_isSome_iff_eq_none]
    intro hsome
    rcases h.only _ (inLog_entryKeyWith ..) hsome with ⟨x, hx⟩ | ⟨j, hj, hkeys⟩
    · exact headerEnd_append_ne_entryKeyWith x _ i hx
    · rcases hkeys with hkey | hkey
      · rw [← entryHeaderKey_inj.mp hkey, hi] at hj
        cases hj
      · exact entryKey_ne_entryHeaderKey j i hkey.symm

/-- The header of every entry is read, and of no other index. -/
theorem Represents.entryHeaderRead_eq (h : Represents endMarker db seg) (i : Nat) :
    entryHeaderRead db i =
      match seg.get? i with
      | some re => .ok re.header
      | none => .error .ENOENT := by
  rw [entryHeaderRead, if_neg (by omega), Int.toNat_natCast, getExactValSize, if_neg (by decide),
    h.get_entryHeaderKey]
  cases seg.get? i with
  | none => rfl
  | some re => exact if_pos re.length_header

/-- An entry with data is read as it was written. -/
theorem Represents.entryRead_eq (h : Represents endMarker db seg) {i : Nat} {re : RocksEntry}
    (hi : seg.get? i = some re) (hdata : re.data ≠ []) :
    entryRead db i = .ok (re.header, re.data) := by
  obtain ⟨hbound, hidx⟩ := h.index i re hi
  have hlen : re.data.length ≠ 0 := fun hzero => hdata (List.eq_nil_of_length_eq_zero hzero)
  have hkey : (rehIndex re.header % 2 ^ 64).toNat = i := by
    rw [hidx]
    simp only [Int.reducePow]
    omega
  have hget : getExactValSize db (entryKey i) re.data.length = .ok re.data := by
    rw [getExactValSize, if_neg hlen, h.data i re hi, storedData, if_neg hlen]
    exact if_pos rfl
  simp only [entryRead, h.entryHeaderRead_eq, hi, bind, Except.bind, re.dataSize_eq, hkey, hget,
    pure, Except.pure]

/-- An entry without data has a value of one byte, and a read of no bytes is refused. -/
theorem Represents.entryRead_nil (h : Represents endMarker db seg) {i : Nat} {re : RocksEntry}
    (hi : seg.get? i = some re) (hdata : re.data = []) : entryRead db i = .error .EINVAL := by
  have hsize : rehDataSize re.header = 0 := by rw [re.dataSize_eq, hdata, List.length_nil]
  simp only [entryRead, h.entryHeaderRead_eq, hi, bind, Except.bind, hsize, getExactValSize,
    if_true]

/-! ## The ends of the log -/

/-- The keys before the first one that is past the log. -/
theorem mem_keysWhere_lt {lastKey : Key} {keys : List Key}
    (hseek : iterSeek db lastEntry = lastKey :: keys) {key : Key} :
    key ∈ db.keysWhere (· < lastKey) ↔ (db.get key).isSome ∧ key < lastEntry := by
  have hmem : lastKey ∈ iterSeek db lastEntry := by rw [hseek]; exact List.mem_cons_self ..
  have hlast : lastEntry ≤ lastKey := by
    simpa using (OrderedStore.mem_keysWhere.mp hmem).2
  rw [OrderedStore.mem_keysWhere]
  refine and_congr_right fun hsome => ?_
  simp only [decide_eq_true_eq]
  refine ⟨fun hlt => ?_, fun hlt => lt_of_lt_of_le hlt hlast⟩
  by_contra hge
  have hin : key ∈ iterSeek db lastEntry :=
    OrderedStore.mem_keysWhere.mpr ⟨hsome, by simpa using not_lt.mp hge⟩
  exact absurd hlt (not_lt_of_ge (OrderedStore.keysWhere_head_le hseek hin))

/-- The last key of the log, if there is one before the end marker. -/
theorem Represents.lastKey (hmarker : lastEntry <+: endMarker) (h : Represents endMarker db seg) :
    ∃ lastKey keys key, iterSeek db lastEntry = lastKey :: keys ∧
      (db.keysWhere (· < lastKey)).getLast? = some key ∧ InLog key ∧ (db.get key).isSome ∧
      ∀ key', InLog key' → (db.get key').isSome → key' ≤ key := by
  have hin : endMarker ∈ iterSeek db lastEntry :=
    OrderedStore.mem_keysWhere.mpr ⟨h.marker, by simpa using lastEntry_le_key hmarker⟩
  cases hseek : iterSeek db lastEntry with
  | nil =>
    rw [hseek] at hin
    cases hin
  | cons lastKey keys =>
    have huuid : uuidKey ∈ db.keysWhere (· < lastKey) :=
      (mem_keysWhere_lt hseek).mpr ⟨h.uuid, (inLog_headerEnd_append _).2⟩
    cases hkey : (db.keysWhere (· < lastKey)).getLast? with
    | none =>
      rw [List.getLast?_eq_none_iff] at hkey
      rw [hkey] at huuid
      cases huuid
    | some key =>
      obtain ⟨hsome, hlt⟩ := (mem_keysWhere_lt hseek).mp (List.mem_of_getLast? hkey)
      have hle := OrderedStore.le_keysWhere_getLast hkey huuid
      refine ⟨lastKey, keys, key, rfl, hkey, ⟨?_, hlt⟩, hsome, fun key' hkey' hsome' => ?_⟩
      · exact le_trans (inLog_headerEnd_append _).1 hle
      · exact OrderedStore.le_keysWhere_getLast hkey
          ((mem_keysWhere_lt hseek).mpr ⟨hsome', hkey'.2⟩)

/-- Past the last entry, or at the start of a log without entries. -/
theorem Represents.numEntriesCalc_eq (hmarker : lastEntry <+: endMarker)
    (h : Represents endMarker db seg) :
    numEntriesCalc db = .ok (if seg.entries = [] then 0 else (seg.endIdx : Int)) := by
  obtain ⟨lastKey, keys, key, hseek, hlast, hin, hsome, hmax⟩ := h.lastKey hmarker
  simp only [numEntriesCalc, hseek, hlast]
  by_cases hnil : seg.entries = []
  · rw [if_pos hnil]
    rcases h.only key hin hsome with hrec | ⟨i, hi, -⟩
    · rw [if_pos (List.isPrefixOf_iff_prefix.mpr hrec)]
    · rw [LogSegment.get?_of_nil hnil] at hi
      cases hi
  · have hpos : 0 < seg.entries.length := List.length_pos_iff.mpr hnil
    have htop : (seg.get? (seg.endIdx - 1)).isSome := by
      rw [LogSegment.get?_isSome, LogSegment.endIdx]
      omega
    obtain ⟨re, hre⟩ := Option.isSome_iff_exists.mp htop
    have hbound := (h.index _ re hre).1
    have htopKey : entryHeaderKey (seg.endIdx - 1) ≤ key :=
      hmax _ (inLog_entryKeyWith ..) (by rw [h.header _ re hre]; rfl)
    have hkey : key = entryHeaderKey (seg.endIdx - 1) := by
      rcases h.only key hin hsome with ⟨x, rfl⟩ | ⟨i, hi, hkeys⟩
      · exact absurd (headerEnd_lt_entryKeyWith _ _ x) (not_lt_of_ge htopKey)
      · have hlt := (LogSegment.get?_isSome.mp hi).2
        have hi' : i < 10 ^ 16 := by omega
        rcases hkeys with rfl | rfl
        · refine le_antisymm (not_lt.mp fun hgt => ?_) htopKey
          rcases (entryKeyWith_lt_iff hbound hi').mp hgt with hidx | ⟨-, hc⟩
          · omega
          · exact absurd hc (lt_irrefl _)
        · refine absurd ?_ (not_lt_of_ge htopKey)
          refine (entryKeyWith_lt_iff hi' hbound).mpr ?_
          rcases Nat.lt_or_ge i (seg.endIdx - 1) with hidx | hidx
          · exact .inl hidx
          · exact .inr ⟨by omega, by decide⟩
    have hprefix : entryKeyPrefix.isPrefixOf (entryHeaderKey (seg.endIdx - 1)) = true :=
      List.isPrefixOf_iff_prefix.mpr (List.prefix_append ..)
    have hrest : ¬(entryHeaderKey (seg.endIdx - 1)).length ≤ entryKeyPrefix.length := by
      simp [entryHeaderKey, entryKeyWith]
    have hother : headerEnd.isPrefixOf (entryHeaderKey (seg.endIdx - 1)) = false := rfl
    rw [hkey, if_neg (by rw [hother]; decide), if_neg (not_not.mpr hprefix), if_neg hrest,
      entryHeaderKey, indexOfKey_entryKeyWith (by decide), if_neg hnil]
    congr 1
    rw [LogSegment.endIdx]
    omega

/-- The records of the database are passed over. -/
theorem lowestEntryScan_headerEnd {key : Key} (h : headerEnd <+: key) (keys : List Key) :
    lowestEntryScan (key :: keys) = lowestEntryScan keys := by
  obtain ⟨x, rfl⟩ := h
  rfl

theorem lowestEntryScan_append {l : List Key} (hl : ∀ key ∈ l, headerEnd <+: key)
    (keys : List Key) : lowestEntryScan (l ++ keys) = lowestEntryScan keys := by
  induction l with
  | nil => rfl
  | cons key l ih =>
    rw [List.cons_append, lowestEntryScan_headerEnd (hl key (List.mem_cons_self ..))]
    exact ih fun key' hkey' => hl key' (List.mem_cons_of_mem _ hkey')

/-- Where there are only records of the database before the end marker, there is no entry. -/
theorem lowestEntryScan_marker (hmarker : lastEntry <+: endMarker) {keys : List Key}
    (hsorted : keys.Pairwise (· < ·)) (hin : endMarker ∈ keys)
    (hkeys : ∀ key ∈ keys, headerEnd <+: key ∨ lastEntry ≤ key) :
    lowestEntryScan keys = .ok (-1) := by
  induction keys with
  | nil => cases hin
  | cons key keys ih =>
    obtain ⟨hfirst, htail⟩ := List.pairwise_cons.mp hsorted
    rcases hkeys key (List.mem_cons_self ..) with hrec | hlast
    · have hne : endMarker ≠ key := by
        obtain ⟨x, rfl⟩ := hrec
        exact ne_of_inLog hmarker (inLog_headerEnd_append x)
      rw [lowestEntryScan_headerEnd hrec]
      exact ih htail ((List.mem_cons.mp hin).resolve_left hne)
        fun key' hkey' => hkeys key' (List.mem_cons_of_mem _ hkey')
    · have hle : key ≤ endMarker := by
        rcases List.mem_cons.mp hin with heq | hmem
        · exact le_of_eq heq.symm
        · exact le_of_lt (hfirst endMarker hmem)
      obtain ⟨x, rfl⟩ := hmarker
      rw [lowestEntryScan, if_pos (List.isPrefixOf_iff_prefix.mpr (prefix_of_le_of_le hlast hle))]

/-- The keys that the scan looks at: it starts at or before the database's uuid. -/
theorem Represents.scanKeys (h : Represents endMarker db seg) :
    ∃ first keys, iterSeek db headerEnd = first :: keys ∧ keys.Pairwise (· < ·) ∧
      (∀ key ∈ keys, (db.get key).isSome ∧ headerEnd ≤ key) ∧
      ∀ key, (db.get key).isSome → uuidKey < key → key ∈ keys := by
  have hmem : ∀ key, key ∈ iterSeek db headerEnd ↔ (db.get key).isSome ∧ headerEnd ≤ key := by
    intro key
    rw [iterSeek, OrderedStore.mem_keysWhere, decide_eq_true_eq]
  have huuid : uuidKey ∈ iterSeek db headerEnd :=
    (hmem uuidKey).mpr ⟨h.uuid, (inLog_headerEnd_append _).1⟩
  cases hseek : iterSeek db headerEnd with
  | nil =>
    rw [hseek] at huuid
    cases huuid
  | cons first keys =>
    have hsorted := OrderedStore.sorted_keysWhere (s := db) (headerEnd ≤ ·)
    rw [show db.keysWhere (headerEnd ≤ ·) = first :: keys from hseek] at hsorted
    have hfirst : first ≤ uuidKey := OrderedStore.keysWhere_head_le hseek huuid
    refine ⟨first, keys, rfl, (List.pairwise_cons.mp hsorted).2, fun key hkey => ?_,
      fun key hsome hlt => ?_⟩
    · exact (hmem key).mp (by rw [hseek]; exact List.mem_cons_of_mem _ hkey)
    · have hin := (hmem key).mpr ⟨hsome, le_trans (inLog_headerEnd_append _).1 (le_of_lt hlt)⟩
      rw [hseek] at hin
      refine (List.mem_cons.mp hin).resolve_left ?_
      rintro rfl
      exact absurd hlt (not_lt_of_ge hfirst)

/-- The first entry, or none. -/
theorem Represents.lowestEntryGet_eq (hmarker : lastEntry <+: endMarker)
    (h : Represents endMarker db seg) :
    lowestEntryGet db = .ok (if seg.entries = [] then -1 else (seg.lowest : Int)) := by
  obtain ⟨first, keys, hseek, hsorted, hsome, hafter⟩ := h.scanKeys
  simp only [lowestEntryGet, hseek]
  by_cases hnil : seg.entries = []
  · rw [if_pos hnil]
    have hpast : uuidKey < endMarker := by
      refine lt_of_lt_of_le ?_ (lastEntry_le_key hmarker)
      exact (inLog_headerEnd_append _).2
    refine lowestEntryScan_marker hmarker hsorted (hafter endMarker h.marker hpast) ?_
    intro key hkey
    rcases lt_or_ge key lastEntry with hlt | hge
    · rcases h.only key ⟨(hsome key hkey).2, hlt⟩ (hsome key hkey).1 with hrec | ⟨i, hi, -⟩
      · exact .inl hrec
      · rw [LogSegment.get?_of_nil hnil] at hi
        cases hi
    · exact .inr hge
  · have hpos : 0 < seg.entries.length := List.length_pos_iff.mpr hnil
    have hlow : (seg.get? seg.lowest).isSome := by
      rw [LogSegment.get?_isSome, LogSegment.endIdx]
      omega
    obtain ⟨re, hre⟩ := Option.isSome_iff_exists.mp hlow
    have hbound := (h.index _ re hre).1
    have hkey : entryKey seg.lowest ∈ keys := by
      refine hafter _ (by rw [h.data _ re hre]; rfl) ?_
      exact headerEnd_lt_entryKeyWith ..
    obtain ⟨l, r, hsplit⟩ := List.append_of_mem hkey
    rw [hsplit] at hsorted hsome
    have hbefore : ∀ key ∈ l, headerEnd <+: key := by
      intro key hl
      have hlt : key < entryKey seg.lowest :=
        (List.pairwise_append.mp hsorted).2.2 key hl _ (List.mem_cons_self ..)
      obtain ⟨hkeySome, hge⟩ := hsome key (List.mem_append_left _ hl)
      rcases h.only key ⟨hge, lt_trans hlt (inLog_entryKeyWith ..).2⟩ hkeySome with
        hrec | ⟨i, hi, hkeys⟩
      · exact hrec
      · obtain ⟨re', hre'⟩ := Option.isSome_iff_exists.mp hi
        have hle := (LogSegment.get?_isSome.mp hi).1
        have hi' := (h.index i re' hre').1
        rcases hkeys with rfl | rfl
        · exact absurd hlt (not_lt_of_ge ((entryKey_le_iff (.inr rfl) hbound hi').mpr hle))
        · exact absurd hlt (not_lt_of_ge ((entryKey_le_iff (.inl rfl) hbound hi').mpr hle))
    have hprefix : entryKeyPrefix.isPrefixOf (entryKey seg.lowest) = true :=
      List.isPrefixOf_iff_prefix.mpr (List.prefix_append ..)
    have hother : lastEntry.isPrefixOf (entryKey seg.lowest) = false := rfl
    rw [hsplit, lowestEntryScan_append hbefore, lowestEntryScan, if_neg (by rw [hother]; decide),
      if_pos hprefix, entryKey, indexOfKey_entryKeyWith (by decide), if_neg hnil]

end Step

/-! ## Runs -/

/-- What is read of the database is what the segment has.  A log without entries has its end at 0 and
no lowest entry. -/
structure ReadsAs (db : RocksDb) (seg : LogSegment) : Prop where
  header : ∀ i re, seg.get? i = some re → entryHeaderRead db i = .ok re.header
  entry : ∀ i re, seg.get? i = some re → re.data ≠ [] → entryRead db i = .ok (re.header, re.data)
  absent : ∀ idx : Int, (0 ≤ idx → seg.get? idx.toNat = none) →
    ∃ e, entryHeaderRead db idx = .error e ∧ entryRead db idx = .error e
  numEntries : numEntriesCalc db = .ok (if seg.entries = [] then 0 else (seg.endIdx : Int))
  lowest : lowestEntryGet db = .ok (if seg.entries = [] then -1 else (seg.lowest : Int))

theorem Represents.readsAs {endMarker : Key} {db : RocksDb} {seg : LogSegment}
    (hmarker : lastEntry <+: endMarker) (h : Represents endMarker db seg) : ReadsAs db seg where
  header i re hi := by rw [h.entryHeaderRead_eq, hi]
  entry i re hi hdata := h.entryRead_eq hi hdata
  absent := by
    intro idx habsent
    have hheader : ∃ e, entryHeaderRead db idx = .error e := by
      by_cases hneg : idx < 0
      · exact ⟨.EINVAL, if_pos hneg⟩
      · refine ⟨.ENOENT, ?_⟩
        have hnone := habsent (by omega)
        have hread := h.entryHeaderRead_eq idx.toNat
        rwa [hnone, Int.toNat_of_nonneg (by omega)] at hread
    obtain ⟨e, he⟩ := hheader
    refine ⟨e, he, ?_⟩
    simp only [entryRead, he, bind, Except.bind]
  numEntries := h.numEntriesCalc_eq hmarker
  lowest := h.lowestEntryGet_eq hmarker

/-- All operations of a sequence are admitted where they take place. -/
def AllAdmitted (endMarker : Key) : LogSegment → List RocksOp → Prop
  | _, [] => True
  | seg, op :: ops => op.Admitted endMarker seg ∧ AllAdmitted endMarker (op.onSegment seg) ops

/-- The database after a sequence of operations, from the one that a new server makes. -/
def dbAfter (raftUuidStr thisPeerUuidStr instanceUuid : List UInt8) (ops : List RocksOp) : RocksDb :=
  ops.foldl RocksOp.onDb
    (initHeader .empty raftUuidStr thisPeerUuidStr (Posix.initialHeader 0) instanceUuid none)

/-- The segment after the same operations. -/
def segmentAfter (ops : List RocksOp) : LogSegment := ops.foldl RocksOp.onSegment ⟨0, []⟩

theorem Represents.foldl {endMarker : Key} (hmarker : lastEntry <+: endMarker)
    (ops : List RocksOp) {db : RocksDb} {seg : LogSegment} (h : Represents endMarker db seg)
    (hops : AllAdmitted endMarker seg ops) :
    Represents endMarker (ops.foldl RocksOp.onDb db) (ops.foldl RocksOp.onSegment seg) := by
  induction ops generalizing db seg with
  | nil => exact h
  | cons op ops ih => exact ih (h.onDb hmarker hops.1) hops.2

/-- A new database. -/
theorem represents_initial (raftUuidStr thisPeerUuidStr instanceUuid : List UInt8)
    (rlh : RaftLogHeader) :
    Represents (lastEntryKey raftUuidStr thisPeerUuidStr)
      (initHeader .empty raftUuidStr thisPeerUuidStr rlh instanceUuid none) ⟨0, []⟩ := by
  have hmarker := lastEntry_prefix_lastEntryKey raftUuidStr thisPeerUuidStr
  have hnone : ∀ i, LogSegment.get? ⟨0, []⟩ i = none := LogSegment.get?_of_nil rfl
  have hbelow : ∀ {key}, InLog key → key ≠ logHeaderKey raftUuidStr thisPeerUuidStr := by
    rintro _ hkey rfl
    have hlt := logHeaderKey_lt_headerEnd raftUuidStr thisPeerUuidStr []
    rw [List.append_nil] at hlt
    exact absurd hlt (not_lt_of_ge hkey.1)
  exact {
    index := fun i re hi => by rw [hnone] at hi; cases hi
    header := fun i re hi => by rw [hnone] at hi; cases hi
    data := fun i re hi => by rw [hnone] at hi; cases hi
    only := by
      intro key hkey hsome
      by_cases huuid : key = uuidKey
      · exact .inl (huuid ▸ List.prefix_append ..)
      · rw [initHeader, headerWrite, OrderedStore.get_put_of_ne (hbelow hkey), initHeaderBatch,
          OrderedStore.get_put_of_ne huuid,
          OrderedStore.get_put_of_ne (ne_of_inLog hmarker hkey).symm] at hsome
        cases hsome
    uuid := by
      have hne : uuidKey ≠ logHeaderKey raftUuidStr thisPeerUuidStr :=
        hbelow (inLog_headerEnd_append _)
      rw [initHeader, headerWrite, OrderedStore.get_put_of_ne hne, initHeaderBatch,
        OrderedStore.get_put_self]
      rfl
    marker := by
      have hne : lastEntryKey raftUuidStr thisPeerUuidStr ≠
          logHeaderKey raftUuidStr thisPeerUuidStr :=
        (ne_of_lt (cons_lt_cons_of_lt (by decide : (97 : UInt8) < 122) _ _)).symm
      have huuid : lastEntryKey raftUuidStr thisPeerUuidStr ≠ uuidKey :=
        ne_of_inLog hmarker (inLog_headerEnd_append _)
      rw [initHeader, headerWrite, OrderedStore.get_put_of_ne hne, initHeaderBatch,
        OrderedStore.get_put_of_ne huuid, OrderedStore.get_put_self]
      rfl }

/-- A run of the database is one of the segment. -/
theorem represents_after (raftUuidStr thisPeerUuidStr instanceUuid : List UInt8)
    (ops : List RocksOp)
    (h : AllAdmitted (lastEntryKey raftUuidStr thisPeerUuidStr) ⟨0, []⟩ ops) :
    Represents (lastEntryKey raftUuidStr thisPeerUuidStr)
      (dbAfter raftUuidStr thisPeerUuidStr instanceUuid ops) (segmentAfter ops) :=
  (represents_initial ..).foldl (lastEntry_prefix_lastEntryKey ..) ops h

/-- After any sequence of operations, the database is read as the segment of the log that they
leave. -/
theorem keys_refine_log (raftUuidStr thisPeerUuidStr instanceUuid : List UInt8)
    (ops : List RocksOp)
    (h : AllAdmitted (lastEntryKey raftUuidStr thisPeerUuidStr) ⟨0, []⟩ ops) :
    ReadsAs (dbAfter raftUuidStr thisPeerUuidStr instanceUuid ops) (segmentAfter ops) :=
  (represents_after _ _ _ ops h).readsAs (lastEntry_prefix_lastEntryKey ..)

/-- An entry of term 1. -/
def rocksEntry (i : Nat) (hi : i < 2 ^ 63) (data : List UInt8) (hdata : data.length < 2 ^ 32) :
    RocksEntry where
  header := entryHeaderBytes sampleMeta 0 data.length i 1
  data := data
  length_header := length_entryHeaderBytes ..
  dataSize_eq := rehDataSize_entryHeaderBytes hdata
  index_nonneg := by
    rw [rehIndex_entryHeaderBytes (by omega) (by exact_mod_cast hi)]
    omega

theorem rehIndex_rocksEntry {i : Nat} (hi : i < 2 ^ 63) {data : List UInt8}
    (hdata : data.length < 2 ^ 32) : rehIndex (rocksEntry i hi data hdata).header = i :=
  rehIndex_entryHeaderBytes (by omega) (by exact_mod_cast hi)

/-- Three entries, of which the first is reaped and the last is cut off and written again. -/
def reapedLog : List RocksOp :=
  [.entryWrite (rocksEntry 0 (by decide) [1] (by decide)) [],
    .entryWrite (rocksEntry 1 (by decide) [2] (by decide)) [.write [0] [7]],
    .entryWrite (rocksEntry 2 (by decide) [3] (by decide)) [], .logReap 1, .logTruncate 2,
    .entryWrite (rocksEntry 2 (by decide) [4, 5] (by decide)) []]

theorem allAdmitted_reapedLog : AllAdmitted (lastEntryKey [1] [2]) ⟨0, []⟩ reapedLog := by
  have happ : AppKey (lastEntryKey [1] [2]) [0] := by
    refine ⟨fun hin => absurd hin.1 (by decide), by decide⟩
  simp [reapedLog, AllAdmitted, RocksOp.Admitted, RocksOp.onSegment, LogSegment.append,
    LogSegment.reap, LogSegment.truncate, LogSegment.endIdx, rehIndex_rocksEntry, WrSupp.key, happ]

theorem keys_refine_log_reapedLog :
    AllAdmitted (lastEntryKey [1] [2]) ⟨0, []⟩ reapedLog ∧
      numEntriesCalc (dbAfter [1] [2] [3] reapedLog) = .ok 3 ∧
      lowestEntryGet (dbAfter [1] [2] [3] reapedLog) = .ok 1 := by
  have hreads := keys_refine_log [1] [2] [3] reapedLog allAdmitted_reapedLog
  have hseg : (segmentAfter reapedLog).lowest = 1 ∧ (segmentAfter reapedLog).entries.length = 2 := by
    simp [segmentAfter, reapedLog, RocksOp.onSegment, LogSegment.append, LogSegment.reap,
      LogSegment.truncate, rehIndex_rocksEntry]
  have hne : (segmentAfter reapedLog).entries ≠ [] := by
    intro hnil
    rw [hnil] at hseg
    cases hseg.2
  refine ⟨allAdmitted_reapedLog, ?_, ?_⟩
  · rw [hreads.numEntries, if_neg hne, LogSegment.endIdx, hseg.1, hseg.2]
    rfl
  · rw [hreads.lowest, if_neg hne, hseg.1]
    rfl

/-- Every entry of the segment is read, and its ends are found whether it has entries or not. -/
structure ReadsExactly (db : RocksDb) (seg : LogSegment) : Prop where
  entry : ∀ i re, seg.get? i = some re → entryRead db i = .ok (re.header, re.data)
  absent : ∀ idx : Int, (0 ≤ idx → seg.get? idx.toNat = none) → ∃ e, entryRead db idx = .error e
  numEntries : numEntriesCalc db = .ok (seg.endIdx : Int)
  lowest : lowestEntryGet db = .ok (seg.lowest : Int)

/-- An entry that is reaped. -/
def emptiedLog : List RocksOp :=
  [.entryWrite (rocksEntry 0 (by decide) [1] (by decide)) [], .logReap 1]

/-- An entry without data. -/
def emptyEntry : List RocksOp := [.entryWrite (rocksEntry 0 (by decide) [] (by decide)) []]

/-- The log that is emptied is taken to end at 0, and the entry without data is not read. -/
theorem emptied_and_empty_not_exact :
    (AllAdmitted (lastEntryKey [1] [2]) ⟨0, []⟩ emptiedLog ∧
      ¬ReadsExactly (dbAfter [1] [2] [3] emptiedLog) (segmentAfter emptiedLog)) ∧
    (AllAdmitted (lastEntryKey [1] [2]) ⟨0, []⟩ emptyEntry ∧
      ¬ReadsExactly (dbAfter [1] [2] [3] emptyEntry) (segmentAfter emptyEntry)) := by
  have hadmits : AllAdmitted (lastEntryKey [1] [2]) ⟨0, []⟩ emptiedLog ∧
      AllAdmitted (lastEntryKey [1] [2]) ⟨0, []⟩ emptyEntry := by
    simp [emptiedLog, emptyEntry, AllAdmitted, RocksOp.Admitted, rehIndex_rocksEntry]
  refine ⟨⟨hadmits.1, fun h => ?_⟩, hadmits.2, fun h => ?_⟩
  · have hseg : segmentAfter emptiedLog = ⟨1, []⟩ := by
      simp [segmentAfter, emptiedLog, RocksOp.onSegment, LogSegment.append, LogSegment.reap,
        rehIndex_rocksEntry]
    have hcalc := (represents_after [1] [2] [3] emptiedLog hadmits.1).numEntriesCalc_eq
      (lastEntry_prefix_lastEntryKey ..)
    rw [h.numEntries, hseg] at hcalc
    cases hcalc
  · have hget : (segmentAfter emptyEntry).get? 0 =
        some (rocksEntry 0 (by decide) [] (by decide)) := by
      simp [segmentAfter, emptyEntry, RocksOp.onSegment, LogSegment.append, LogSegment.get?,
        rehIndex_rocksEntry]
    have hread := (represents_after [1] [2] [3] emptyEntry hadmits.2).entryRead_nil hget rfl
    rw [h.entry 0 _ hget] at hread
    cases hread

end Rocks

end NiovaRaft
