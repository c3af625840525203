import NiovaRaft.Model.BulkRecovery
import NiovaRaft.Backend.RocksLog

/-!
# Scrubbing a database again

A scrub that a crash cut short leaves a database in which some of the peer's records are replaced and
others are not.  The next scrub must do on it what it would have done on the peer's database.

It does because each step looks at nothing that an earlier scrub could have changed in a way that
matters: a scrubbed entry header passes the same checks and is scrubbed to itself, the keys that are
added do not move the ends of the log, and the peer's own log header is not touched.  What tells a
half-scrubbed database from one of somebody else is the uuid that is kept at
`a1_hdr.UUID.pre-recovery`.
-/

namespace NiovaRaft

open Base

namespace Rocks

/-! ## Entry headers -/

section Header

variable {selfUuid : Uuid} {reh : List UInt8}

theorem length_scrubHeader (h : reh.length = entryHeaderSize) :
    (scrubHeader selfUuid reh).length = entryHeaderSize := by
  rw [scrubHeader, length_overwrite, h, selfUuid.length_bytes]
  rfl

theorem rehMagic_scrubHeader (h : reh.length = entryHeaderSize) :
    rehMagic (scrubHeader selfUuid reh) = rehMagic reh := by
  rw [rehMagic, scrubHeader, slice_overwrite_before (Nat.le_refl 8) (by rw [h]; decide), rehMagic]

theorem rehIndex_scrubHeader : rehIndex (scrubHeader selfUuid reh) = rehIndex reh := by
  rw [rehIndex, scrubHeader, slice_overwrite_after (by rw [selfUuid.length_bytes]; decide), rehIndex]

theorem scrubHeader_scrubHeader :
    scrubHeader selfUuid (scrubHeader selfUuid reh) = scrubHeader selfUuid reh :=
  overwrite_overwrite

end Header

section Scrub

variable {selfUuid : Uuid} {x d f : RocksDb} {i n : Nat}

/-- What reading an entry's header tells of its value. -/
theorem entryHeaderRead_ok_iff {reh : List UInt8} :
    entryHeaderRead d i = .ok reh ↔
      d.get (entryHeaderKey i) = some reh ∧ reh.length = entryHeaderSize := by
  rw [entryHeaderRead, if_neg (by omega), Int.toNat_natCast, getExactValSize, if_neg (by decide)]
  cases d.get (entryHeaderKey i) with
  | none => simp
  | some value =>
    by_cases hlen : value.length = entryHeaderSize
    · simp only [if_pos hlen, Except.ok.injEq, Option.some.injEq]
      constructor
      · rintro rfl
        exact ⟨rfl, hlen⟩
      · exact fun h => h.1
    · simp only [if_neg hlen, reduceCtorEq, Option.some.injEq, false_iff]
      rintro ⟨rfl, h⟩
      exact hlen h

/-- Only values of entry headers from `i` on differ. -/
structure ScrubFrame (i : Nat) (x z : RocksDb) : Prop where
  other : ∀ key, (∀ j, i ≤ j → key ≠ entryHeaderKey j) → z.get key = x.get key
  isSome : ∀ key, (z.get key).isSome = (x.get key).isSome

theorem ScrubFrame.refl (i : Nat) (x : RocksDb) : ScrubFrame i x x := ⟨fun _ _ => rfl, fun _ => rfl⟩

/-- One header is scrubbed, and then others. -/
theorem ScrubFrame.put {z : RocksDb} {reh value : List UInt8}
    (hget : x.get (entryHeaderKey i) = some reh)
    (h : ScrubFrame (i + 1) (x.put (entryHeaderKey i) value) z) : ScrubFrame i x z where
  other key hkey := by
    rw [h.other key fun j hj => hkey j (by omega), OrderedStore.get_put_of_ne (hkey i (Nat.le_refl i))]
  isSome key := by
    rw [h.isSome, OrderedStore.get_put]
    split
    · next heq =>
      rw [heq, hget]
      rfl
    · rfl

/-- The loop leaves everything else alone, also when it is cut short. -/
theorem wp_dbScrubEntryHeaders_frame (n i : Nat) (x : RocksDb) :
    (dbScrubEntryHeaders selfUuid i n).wp (ScrubFrame i x) (fun _ => ScrubFrame i x)
      (fun _ => ScrubFrame i x) x := by
  induction n generalizing i x with
  | zero => exact (Durable.wp_pure _).mpr ⟨.refl i x, .refl i x⟩
  | succ n ih =>
    rw [dbScrubEntryHeaders, Durable.wp_bind, Durable.wp_read]
    refine ⟨.refl i x, ?_⟩
    cases hread : entryHeaderRead x i with
    | error e => exact (Durable.wp_fail _).mpr ⟨.refl i x, .refl i x⟩
    | ok reh =>
      have hget := (entryHeaderRead_ok_iff.mp hread).1
      simp only
      split
      · exact (Durable.wp_pure _).mpr ⟨.refl i x, .refl i x⟩
      · have hrest := ih (i + 1) (x.put (entryHeaderKey i) (scrubHeader selfUuid reh))
        rw [Durable.wp_bind, Durable.wp_write]
        refine ⟨.refl i x, .put hget (.refl _ _), ?_⟩
        exact Durable.wp_mono hrest (fun _ h => .put hget h) (fun _ _ h => .put hget h)
          fun _ _ h => .put hget h

/-- Every key in `K` has the value of one database or that of the other. -/
def Between (K : Key → Prop) (x f d : RocksDb) : Prop :=
  ∀ key, K key → d.get key = x.get key ∨ d.get key = f.get key

/-- The loop does on a database that it was cut short on what it does on the one that it began with.
Here `f` is where it ends on `x`. -/
theorem wp_dbScrubEntryHeaders_again {K : Key → Prop} (hK : ∀ j, K (entryHeaderKey j)) (n i : Nat)
    {x d : RocksDb}
    (hx : (dbScrubEntryHeaders selfUuid i n).wp (fun _ => True) (fun _ s => s = f)
      (fun _ _ => False) x)
    (hd : Between K x f d) :
    (dbScrubEntryHeaders selfUuid i n).wp (Between K x f)
      (fun _ g => ∀ key, K key → g.get key = f.get key) (fun _ _ => False) d := by
  induction n generalizing i x d with
  | zero =>
    obtain rfl : x = f := ((Durable.wp_pure _).mp hx).2
    exact (Durable.wp_pure _).mpr ⟨hd, fun key hkey => (hd key hkey).elim id id⟩
  | succ n ih =>
    rw [dbScrubEntryHeaders, Durable.wp_bind, Durable.wp_read] at hx
    rw [dbScrubEntryHeaders, Durable.wp_bind, Durable.wp_read]
    refine ⟨hd, ?_⟩
    cases hread : entryHeaderRead x i with
    | error e =>
      rw [hread] at hx
      exact ((Durable.wp_fail _).mp hx.2).2.elim
    | ok reh =>
      obtain ⟨hget, hlen⟩ := entryHeaderRead_ok_iff.mp hread
      rw [hread] at hx
      by_cases hbad : rehMagic reh ≠ entryMagic ∨ rehIndex reh ≠ i
      · -- the loop ends here on both
        simp only [if_pos hbad] at hx
        obtain rfl : x = f := ((Durable.wp_pure _).mp hx.2).2
        have hsame : ∀ key, K key → d.get key = x.get key := fun key hkey =>
          (hd key hkey).elim id id
        have hread' : entryHeaderRead d i = .ok reh :=
          entryHeaderRead_ok_iff.mpr ⟨(hsame _ (hK i)).trans hget, hlen⟩
        simp only [hread', if_pos hbad]
        exact (Durable.wp_pure _).mpr ⟨hd, hsame⟩
      · simp only [if_neg hbad, Durable.wp_bind, Durable.wp_write] at hx
        obtain ⟨-, -, -, hrest⟩ := hx
        have hfinal : f.get (entryHeaderKey i) = some (scrubHeader selfUuid reh) := by
          have hboth := Durable.wp_and hrest (wp_dbScrubEntryHeaders_frame n (i + 1) _)
          obtain ⟨-, -, heq, hframe⟩ := Durable.wp_result
            (Durable.wp_mono hboth (fun _ h => h) (fun _ _ h => h) fun _ _ h => h.1)
          rw [← heq, hframe.other _ fun j hj heq' => by
            have := entryHeaderKey_inj.mp heq'
            omega, OrderedStore.get_put_self]
        -- the header is the peer's or was scrubbed before, and is scrubbed to the same
        obtain ⟨reh', hget', hlen', hgood, hscrub⟩ : ∃ reh', d.get (entryHeaderKey i) = some reh' ∧
            reh'.length = entryHeaderSize ∧ ¬(rehMagic reh' ≠ entryMagic ∨ rehIndex reh' ≠ i) ∧
            scrubHeader selfUuid reh' = scrubHeader selfUuid reh := by
          rcases hd _ (hK i) with heq | heq
          · exact ⟨reh, heq.trans hget, hlen, hbad, rfl⟩
          · refine ⟨_, heq.trans hfinal, length_scrubHeader hlen, ?_, scrubHeader_scrubHeader⟩
            rwa [rehMagic_scrubHeader hlen, rehIndex_scrubHeader]
        have hread' : entryHeaderRead d i = .ok reh' := entryHeaderRead_ok_iff.mpr ⟨hget', hlen'⟩
        have hnext : Between K (x.put (entryHeaderKey i) (scrubHeader selfUuid reh)) f
            (d.put (entryHeaderKey i) (scrubHeader selfUuid reh)) := by
          intro key hkey
          by_cases heq : key = entryHeaderKey i
          · rw [heq, OrderedStore.get_put_self, OrderedStore.get_put_self]
            exact .inl rfl
          · rw [OrderedStore.get_put_of_ne heq, OrderedStore.get_put_of_ne heq]
            exact hd key hkey
        have hback : ∀ z, Between K (x.put (entryHeaderKey i) (scrubHeader selfUuid reh)) f z →
            Between K x f z := by
          intro z hz key hkey
          by_cases heq : key = entryHeaderKey i
          · right
            have hval := hz key hkey
            rw [heq, OrderedStore.get_put_self, hfinal] at hval
            rw [heq, hfinal]
            exact hval.elim id id
          · have hval := hz key hkey
            rwa [OrderedStore.get_put_of_ne heq] at hval
        simp only [hread', if_neg hgood, hscrub, Durable.wp_bind, Durable.wp_write]
        refine ⟨hd, hback _ hnext, ?_⟩
        exact Durable.wp_mono (ih (i + 1) hrest hnext) hback (fun _ _ h => h) fun _ _ h => h

end Scrub

/-! ## The ends of the log -/

section Ends

variable {raftUuidStr selfStr : List UInt8} {x d : RocksDb}

/-- A database with the keys of another, and with those that a scrub adds. -/
structure Grown (raftUuidStr selfStr : List UInt8) (x d : RocksDb) : Prop where
  old : ∀ key, (x.get key).isSome → (d.get key).isSome
  new : ∀ key, (d.get key).isSome → (x.get key).isSome ∨ key = preRecoveryKey ∨
    key = lastEntryKey raftUuidStr selfStr ∨ key = logHeaderKey raftUuidStr selfStr

/-- What `rsbr_num_entries_calc` makes of the last key. -/
def numEntriesOfKey (key : Key) : Except RocksErrno Int :=
  if headerEnd.isPrefixOf key then .ok 0
  else if ¬entryKeyPrefix.isPrefixOf key then .error .ENOKEY
  else if key.length ≤ entryKeyPrefix.length then .error .EBADMSG
  else .ok (indexOfKey key + 1)

/-- The last key before the end marker. -/
structure IsLastKey (db : RocksDb) (key : Key) : Prop where
  isSome : (db.get key).isSome
  lt : key < lastEntry
  max : ∀ key', (db.get key').isSome → key' < lastEntry → key' ≤ key

theorem numEntriesCalc_ok_iff {db : RocksDb} {num : Int} :
    numEntriesCalc db = .ok num ↔
      (∃ key, (db.get key).isSome ∧ lastEntry ≤ key) ∧
        ∃ key, IsLastKey db key ∧ numEntriesOfKey key = .ok num := by
  have hseek : ∀ key, key ∈ iterSeek db lastEntry ↔ (db.get key).isSome ∧ lastEntry ≤ key := by
    intro key
    rw [iterSeek, OrderedStore.mem_keysWhere, decide_eq_true_eq]
  rw [numEntriesCalc]
  cases hiter : iterSeek db lastEntry with
  | nil =>
    simp only [reduceCtorEq, false_iff, not_and]
    rintro ⟨key, hkey⟩
    rw [← hseek, hiter] at hkey
    cases hkey
  | cons lastKey keys =>
    have hmem : ∀ key, key ∈ db.keysWhere (· < lastKey) ↔ (db.get key).isSome ∧ key < lastEntry :=
      fun key => mem_keysWhere_lt hiter
    have hsome : ∃ key, (db.get key).isSome ∧ lastEntry ≤ key :=
      ⟨lastKey, (hseek lastKey).mp (by rw [hiter]; exact List.mem_cons_self ..)⟩
    rw [and_iff_right hsome]
    dsimp only
    cases hlast : (db.keysWhere (· < lastKey)).getLast? with
    | none =>
      rw [List.getLast?_eq_none_iff] at hlast
      simp only [reduceCtorEq, false_iff, not_exists, not_and]
      intro key hkey
      have hin := (hmem key).mpr ⟨hkey.isSome, hkey.lt⟩
      rw [hlast] at hin
      cases hin
    | some key =>
      show numEntriesOfKey key = .ok num ↔ _
      have hkey : IsLastKey db key := by
        obtain ⟨hisSome, hlt⟩ := (hmem key).mp (List.mem_of_getLast? hlast)
        exact ⟨hisSome, hlt, fun key' hsome' hlt' =>
          OrderedStore.le_keysWhere_getLast hlast ((hmem key').mpr ⟨hsome', hlt'⟩)⟩
      constructor
      · exact fun h => ⟨key, hkey, h⟩
      · rintro ⟨key', hkey', h⟩
        rwa [le_antisymm (hkey'.max key hkey.isSome hkey.lt)
          (hkey.max key' hkey'.isSome hkey'.lt)]

theorem logHeaderKey_lt_uuidKey (raftUuidStr peerUuidStr : List UInt8) :
    logHeaderKey raftUuidStr peerUuidStr < uuidKey :=
  logHeaderKey_lt_headerEnd ..

/-- The keys that are added do not move the end of the log. -/
theorem numEntriesCalc_grown {num : Int} (h : Grown raftUuidStr selfStr x d)
    (huuid : (x.get uuidKey).isSome) (hnum : numEntriesCalc x = .ok num) :
    numEntriesCalc d = .ok num := by
  obtain ⟨⟨after, hafter, hge⟩, key, hkey, hof⟩ := numEntriesCalc_ok_iff.mp hnum
  refine numEntriesCalc_ok_iff.mpr ⟨⟨after, h.old after hafter, hge⟩, ?_⟩
  have huuidLe : uuidKey ≤ key := hkey.max uuidKey huuid (inLog_headerEnd_append _).2
  -- every key of `d` is at most the larger one of `key` and the added record
  have hmax : ∀ key', (d.get key').isSome → key' < lastEntry →
      key' ≤ key ∨ key' = preRecoveryKey := by
    intro key' hsome hlt
    rcases h.new key' hsome with hold | heq | heq | heq
    · exact .inl (hkey.max key' hold hlt)
    · exact .inr heq
    · rw [heq] at hlt
      exact absurd hlt (not_lt_of_ge (lastEntry_le_key (lastEntry_prefix_lastEntryKey ..)))
    · rw [heq]
      exact .inl (le_trans (le_of_lt (logHeaderKey_lt_uuidKey ..)) huuidLe)
  by_cases hpre : (d.get preRecoveryKey).isSome ∧ key < preRecoveryKey
  · have hprefix : headerEnd <+: key := by
      have hle : key ≤ headerEnd ++ preRecoveryKey.drop 7 := le_of_lt hpre.2
      exact prefix_of_le_of_le (le_trans (inLog_headerEnd_append _).1 huuidLe) hle
    rw [numEntriesOfKey, if_pos (List.isPrefixOf_iff_prefix.mpr hprefix)] at hof
    refine ⟨preRecoveryKey, ⟨hpre.1, (inLog_headerEnd_append _).2, fun key' hsome hlt => ?_⟩, hof⟩
    rcases hmax key' hsome hlt with hle | heq
    · exact le_trans hle (le_of_lt hpre.2)
    · exact le_of_eq heq
  · refine ⟨key, ⟨h.old key hkey.isSome, hkey.lt, fun key' hsome hlt => ?_⟩, hof⟩
    rcases hmax key' hsome hlt with hle | heq
    · exact hle
    · subst heq
      exact not_lt.mp fun hlt' => hpre ⟨hsome, hlt'⟩

/-- What the loop of `rsbr_lowest_entry_get` makes of a key. -/
def lowestOfKey (key : Key) : Option Int :=
  if lastEntry.isPrefixOf key then some (-1)
  else if entryKeyPrefix.isPrefixOf key then some (indexOfKey key)
  else none

/-- The first key that says something counts. -/
theorem lowestEntryScan_ok_iff {keys : List Key} (hsorted : keys.Pairwise (· < ·)) {lowest : Int} :
    lowestEntryScan keys = .ok lowest ↔
      ∃ key ∈ keys, lowestOfKey key = some lowest ∧
        ∀ key' ∈ keys, key' < key → lowestOfKey key' = none := by
  induction keys with
  | nil => simp [lowestEntryScan]
  | cons first keys ih =>
    obtain ⟨hfirst, htail⟩ := List.pairwise_cons.mp hsorted
    cases hof : lowestOfKey first with
    | some low =>
      have hscan : lowestEntryScan (first :: keys) = .ok low := by
        rw [lowestOfKey] at hof
        rw [lowestEntryScan]
        split at hof
        · next h => rw [if_pos h, Option.some.inj hof]
        · next h =>
          split at hof
          · next h' => rw [if_neg h, if_pos h', Option.some.inj hof]
          · cases hof
      rw [hscan]
      constructor
      · intro heq
        cases heq
        refine ⟨first, List.mem_cons_self .., hof, fun key' hkey' hlt => ?_⟩
        rcases List.mem_cons.mp hkey' with rfl | hmem
        · exact absurd hlt (lt_irrefl _)
        · exact absurd hlt (not_lt_of_gt (hfirst key' hmem))
      · rintro ⟨key, hkey, hlow, hmin⟩
        rcases List.mem_cons.mp hkey with rfl | hmem
        · rw [hof] at hlow
          rw [Option.some.inj hlow]
        · have hnone := hmin first (List.mem_cons_self ..) (hfirst key hmem)
          rw [hof] at hnone
          cases hnone
    | none =>
      have hscan : lowestEntryScan (first :: keys) = lowestEntryScan keys := by
        rw [lowestOfKey] at hof
        rw [lowestEntryScan]
        split at hof
        · cases hof
        · next h =>
          split at hof
          · cases hof
          · next h' => rw [if_neg h, if_neg h']
      rw [hscan, ih htail]
      constructor
      · rintro ⟨key, hkey, hlow, hmin⟩
        refine ⟨key, List.mem_cons_of_mem _ hkey, hlow, fun key' hkey' hlt => ?_⟩
        rcases List.mem_cons.mp hkey' with rfl | hmem
        · exact hof
        · exact hmin key' hmem hlt
      · rintro ⟨key, hkey, hlow, hmin⟩
        rcases List.mem_cons.mp hkey with rfl | hmem
        · rw [hof] at hlow
          cases hlow
        · exact ⟨key, hmem, hlow, fun key' hkey' => hmin key' (List.mem_cons_of_mem _ hkey')⟩

/-- The first of the records of the database. -/
structure IsFirstRecord (db : RocksDb) (key : Key) : Prop where
  isSome : (db.get key).isSome
  ge : headerEnd ≤ key
  min : ∀ key', (db.get key').isSome → headerEnd ≤ key' → key ≤ key'

theorem lowestEntryGet_ok_iff {db : RocksDb} {lowest : Int} {first : Key}
    (hfirst : IsFirstRecord db first) :
    lowestEntryGet db = .ok lowest ↔
      ∃ key, (db.get key).isSome ∧ first < key ∧ lowestOfKey key = some lowest ∧
        ∀ key', (db.get key').isSome → first < key' → key' < key → lowestOfKey key' = none := by
  have hseek : ∀ key, key ∈ iterSeek db headerEnd ↔ (db.get key).isSome ∧ headerEnd ≤ key := by
    intro key
    rw [iterSeek, OrderedStore.mem_keysWhere, decide_eq_true_eq]
  rw [lowestEntryGet]
  cases hiter : iterSeek db headerEnd with
  | nil =>
    have hin := (hseek first).mpr ⟨hfirst.isSome, hfirst.ge⟩
    rw [hiter] at hin
    cases hin
  | cons first' keys =>
    have hsorted : (first' :: keys).Pairwise (· < ·) :=
      hiter ▸ OrderedStore.sorted_keysWhere (s := db) (headerEnd ≤ ·)
    obtain ⟨hbefore, htail⟩ := List.pairwise_cons.mp hsorted
    obtain ⟨hsome', hge'⟩ := (hseek first').mp (by rw [hiter]; exact List.mem_cons_self ..)
    obtain rfl : first' = first :=
      le_antisymm
        (OrderedStore.keysWhere_head_le hiter ((hseek first).mpr ⟨hfirst.isSome, hfirst.ge⟩))
        (hfirst.min first' hsome' hge')
    have hkeys : ∀ key, key ∈ keys ↔ (db.get key).isSome ∧ first' < key := by
      intro key
      constructor
      · intro hkey
        exact ⟨((hseek key).mp (by rw [hiter]; exact List.mem_cons_of_mem _ hkey)).1, hbefore key hkey⟩
      · rintro ⟨hsome, hlt⟩
        have hin := (hseek key).mpr ⟨hsome, le_trans hfirst.ge (le_of_lt hlt)⟩
        rw [hiter] at hin
        exact (List.mem_cons.mp hin).resolve_left (ne_of_gt hlt)
    simp only [lowestEntryScan_ok_iff htail, hkeys, and_assoc, and_imp]

theorem exists_isFirstRecord {db : RocksDb} (huuid : (db.get uuidKey).isSome) :
    ∃ first, IsFirstRecord db first := by
  have hseek : ∀ key, key ∈ iterSeek db headerEnd ↔ (db.get key).isSome ∧ headerEnd ≤ key := by
    intro key
    rw [iterSeek, OrderedStore.mem_keysWhere, decide_eq_true_eq]
  cases hiter : iterSeek db headerEnd with
  | nil =>
    have hin := (hseek uuidKey).mpr ⟨huuid, (inLog_headerEnd_append _).1⟩
    rw [hiter] at hin
    cases hin
  | cons first keys =>
    obtain ⟨hsome, hge⟩ := (hseek first).mp (by rw [hiter]; exact List.mem_cons_self ..)
    exact ⟨first, hsome, hge, fun key' hsome' hge' =>
      OrderedStore.keysWhere_head_le hiter ((hseek key').mpr ⟨hsome', hge'⟩)⟩

theorem uuidKey_lt_preRecoveryKey : uuidKey < preRecoveryKey := by decide

/-- The first record stays the first one. -/
theorem IsFirstRecord.grown {first : Key} (hfirst : IsFirstRecord x first)
    (h : Grown raftUuidStr selfStr x d) (huuid : (x.get uuidKey).isSome) : IsFirstRecord d first where
  isSome := h.old first hfirst.isSome
  ge := hfirst.ge
  min := by
    have hle : first ≤ uuidKey := hfirst.min uuidKey huuid (inLog_headerEnd_append _).1
    intro key' hsome hge
    rcases h.new key' hsome with hold | heq | heq | heq
    · exact hfirst.min key' hold hge
    · rw [heq]
      exact le_trans hle (le_of_lt uuidKey_lt_preRecoveryKey)
    · rw [heq]
      refine le_trans hle (le_trans (le_of_lt (inLog_headerEnd_append _).2) ?_)
      exact lastEntry_le_key (lastEntry_prefix_lastEntryKey ..)
    · rw [heq] at hge
      have hlt := logHeaderKey_lt_headerEnd raftUuidStr selfStr []
      rw [List.append_nil] at hlt
      exact absurd hlt (not_lt_of_ge hge)

/-- The keys that are added do not hide the lowest entry. -/
theorem lowestEntryGet_grown {lowest : Int} (h : Grown raftUuidStr selfStr x d)
    (huuid : (x.get uuidKey).isSome) (hlow : lowestEntryGet x = .ok lowest) (hpos : 0 ≤ lowest) :
    lowestEntryGet d = .ok lowest := by
  obtain ⟨first, hfirst⟩ := exists_isFirstRecord huuid
  have hfirst' := hfirst.grown h huuid
  obtain ⟨key, hsome, hgt, hof, hmin⟩ := (lowestEntryGet_ok_iff hfirst).mp hlow
  have hentry : entryKeyPrefix <+: key := by
    rw [lowestOfKey] at hof
    split at hof
    · have hneg := Option.some.inj hof
      omega
    · split at hof
      · next hp => exact List.isPrefixOf_iff_prefix.mp hp
      · cases hof
  have hlt : key < lastEntry := by
    obtain ⟨y, rfl⟩ := hentry
    exact cons_lt_cons_of_lt (by decide : (101 : UInt8) < 122) _ _
  refine (lowestEntryGet_ok_iff hfirst').mpr ⟨key, h.old key hsome, hgt, hof, ?_⟩
  intro key' hsome' hgt' hlt'
  rcases h.new key' hsome' with hold | heq | heq | heq
  · exact hmin key' hold hgt' hlt'
  · rw [heq]
    rfl
  · rw [heq] at hlt'
    have hlast := lastEntry_le_key (lastEntry_prefix_lastEntryKey raftUuidStr selfStr)
    exact absurd (lt_trans hlt' hlt) (not_lt_of_ge hlast)
  · rw [heq] at hgt'
    have hbelow := logHeaderKey_lt_headerEnd raftUuidStr selfStr []
    rw [List.append_nil] at hbelow
    exact absurd (lt_trans hgt' hbelow) (not_lt_of_ge hfirst.ge)

end Ends

/-! ## The keys that a recovery writes -/

/-- The key of the server's own end marker. -/
def RecoveryHandle.markerKey (rrh : RecoveryHandle) : Key :=
  lastEntryKey rrh.raftUuidStr rrh.thisPeerUuidStr

/-- The key of the server's own log header. -/
def RecoveryHandle.headerKey (rrh : RecoveryHandle) : Key :=
  logHeaderKey rrh.raftUuidStr rrh.thisPeerUuidStr

/-- The keys that are none of the four records that `rsbr_init_header` writes. -/
structure Plain (rrh : RecoveryHandle) (key : Key) : Prop where
  uuid : key ≠ uuidKey
  preRecovery : key ≠ preRecoveryKey
  marker : key ≠ rrh.markerKey
  header : key ≠ rrh.headerKey

section Keys

variable {rrh : RecoveryHandle}

theorem markerKey_ne_record (x : List UInt8) : rrh.markerKey ≠ headerEnd ++ x :=
  ne_of_inLog (lastEntry_prefix_lastEntryKey ..) (inLog_headerEnd_append x)

theorem headerKey_ne_record (x : List UInt8) : rrh.headerKey ≠ headerEnd ++ x :=
  ne_of_lt (logHeaderKey_lt_headerEnd ..)

theorem headerKey_ne_markerKey : rrh.headerKey ≠ rrh.markerKey :=
  ne_of_lt (cons_lt_cons_of_lt (by decide : (97 : UInt8) < 122) _ _)

theorem plain_entryKeyWith (c : UInt8) (i : Nat) : Plain rrh (entryKeyWith c i) where
  uuid := (headerEnd_append_ne_entryKeyWith _ c i).symm
  preRecovery := (headerEnd_append_ne_entryKeyWith _ c i).symm
  marker := (ne_of_inLog (lastEntry_prefix_lastEntryKey ..) (inLog_entryKeyWith c i)).symm
  header := by
    have hlt := logHeaderKey_lt_headerEnd rrh.raftUuidStr rrh.thisPeerUuidStr []
    exact ne_of_gt (lt_trans hlt (headerEnd_lt_entryKeyWith c i []))

/-- The peer's log header has a key of its own. -/
theorem plain_logHeaderKey (h : rrh.thisPeerUuidStr ≠ rrh.peerUuidStr) :
    Plain rrh (logHeaderKey rrh.raftUuidStr rrh.peerUuidStr) where
  uuid := ne_of_lt (logHeaderKey_lt_headerEnd ..)
  preRecovery := ne_of_lt (logHeaderKey_lt_headerEnd ..)
  marker := ne_of_lt (cons_lt_cons_of_lt (by decide : (97 : UInt8) < 122) _ _)
  header := fun heq => h (List.append_cancel_left heq).symm

/-- No log header is under a key of an entry. -/
theorem logHeaderKey_ne_entryHeaderKey (raftUuidStr peerUuidStr : List UInt8) (j : Nat) :
    logHeaderKey raftUuidStr peerUuidStr ≠ entryHeaderKey j := by
  have hlt := logHeaderKey_lt_headerEnd raftUuidStr peerUuidStr []
  exact ne_of_lt (lt_trans hlt (headerEnd_lt_entryKeyWith _ j []))

theorem getUuid_ok_iff {db : RocksDb} {key : Key} {u : Uuid} :
    getUuid db key = .ok u ↔ db.get key = some u.bytes := by
  rw [getUuid, getExactValSize, if_neg (by decide)]
  cases db.get key with
  | none => simp
  | some value =>
    by_cases hlen : value.length = 16
    · simp only [hlen, if_true, dif_pos, Except.ok.injEq, Option.some.injEq]
      constructor
      · rintro rfl
        rfl
      · rintro rfl
        rfl
    · simp only [if_neg hlen, reduceCtorEq, Option.some.injEq, false_iff]
      rintro rfl
      exact hlen u.length_bytes

theorem recoveryUuid_of_ok {db : RocksDb} {mem u : Uuid} (h : getUuid db preRecoveryKey = .ok u) :
    recoveryUuid db mem = u := by
  rw [recoveryUuid, h]

/-- The uuid that a recovery goes by is the one on disk, unless there is none. -/
theorem recoveryUuid_eq {db : RocksDb} {mem u : Uuid} (h : recoveryUuid db mem = u) :
    getUuid db preRecoveryKey = .ok u ∨
      mem = u ∧ ∀ u', getUuid db preRecoveryKey ≠ .ok u' := by
  rw [recoveryUuid] at h
  cases hget : getUuid db preRecoveryKey with
  | ok u' =>
    rw [hget] at h
    exact .inl (congrArg Except.ok h)
  | error e =>
    rw [hget] at h
    exact .inr ⟨h, fun u' => (fun h => by cases h)⟩

variable {db : RocksDb} {logHdr : RaftLogHeader} {instanceUuid : List UInt8}
  {preRecovery : Option (List UInt8)} {key : Key}

theorem get_headerWrite_of_ne (key : Key) (h : key ≠ rrh.headerKey) :
    (headerWrite db rrh.raftUuidStr rrh.thisPeerUuidStr logHdr).get key = db.get key :=
  OrderedStore.get_put_of_ne h

theorem get_headerWrite_self :
    (headerWrite db rrh.raftUuidStr rrh.thisPeerUuidStr logHdr).get rrh.headerKey =
      some logHdr.bytes :=
  OrderedStore.get_put_self

theorem get_initHeaderBatch_of_ne (huuid : key ≠ uuidKey) (hpre : key ≠ preRecoveryKey)
    (hmarker : key ≠ rrh.markerKey) :
    (initHeaderBatch db rrh.raftUuidStr rrh.thisPeerUuidStr logHdr instanceUuid preRecovery).get
      key = db.get key := by
  cases preRecovery with
  | none =>
    exact (OrderedStore.get_put_of_ne huuid).trans (OrderedStore.get_put_of_ne hmarker)
  | some peerDbUuid =>
    exact (OrderedStore.get_put_of_ne hpre).trans
      ((OrderedStore.get_put_of_ne huuid).trans (OrderedStore.get_put_of_ne hmarker))

theorem get_initHeaderBatch_marker :
    (initHeaderBatch db rrh.raftUuidStr rrh.thisPeerUuidStr logHdr instanceUuid preRecovery).get
      rrh.markerKey = some logHdr.bytes := by
  have hput : ((db.put rrh.markerKey logHdr.bytes).put uuidKey instanceUuid).get rrh.markerKey =
      some logHdr.bytes :=
    (OrderedStore.get_put_of_ne (markerKey_ne_record _)).trans OrderedStore.get_put_self
  cases preRecovery with
  | none => exact hput
  | some peerDbUuid => exact (OrderedStore.get_put_of_ne (markerKey_ne_record _)).trans hput

theorem get_initHeaderBatch_uuid :
    (initHeaderBatch db rrh.raftUuidStr rrh.thisPeerUuidStr logHdr instanceUuid preRecovery).get
      uuidKey = some instanceUuid := by
  cases preRecovery with
  | none => exact OrderedStore.get_put_self
  | some peerDbUuid =>
    exact (OrderedStore.get_put_of_ne (ne_of_lt uuidKey_lt_preRecoveryKey)).trans
      OrderedStore.get_put_self

theorem get_initHeaderBatch_preRecovery :
    (initHeaderBatch db rrh.raftUuidStr rrh.thisPeerUuidStr logHdr instanceUuid preRecovery).get
      preRecoveryKey = preRecovery.or (db.get preRecoveryKey) := by
  have hne : ∀ x, rrh.markerKey ≠ headerEnd ++ x := markerKey_ne_record
  cases preRecovery with
  | none =>
    exact (OrderedStore.get_put_of_ne (ne_of_gt uuidKey_lt_preRecoveryKey)).trans
      (OrderedStore.get_put_of_ne (hne _).symm)
  | some peerDbUuid => exact OrderedStore.get_put_self

end Keys

end Rocks

end NiovaRaft
