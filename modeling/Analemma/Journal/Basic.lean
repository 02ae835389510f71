import Analemma.Foundation.SlotRing
import Analemma.Journal.Eeprom
import Analemma.Schedule.HatchEvent

/-!
# The journal

`updateJournal`, `readJournal` and `clearJournal`. The records stand in the EEPROM, the cursor
`eeprom_addr` in RAM.

The writer and the reader test the end of the memory separately, both by `addr + 14` against
`EEPROM.length()`, in unsigned 16-bit arithmetic. Both tests mean the same number of slots
(`slotCount`), so the journal is a ring of that many slots (`Represents`, `represents_update`), and
the reader lists the slots from the first one up to the end marker (`readJournal_eq`).

The cursor is an `int` and the tests are unsigned, so the arithmetic is that of the conversions
between the two (`endOfRecord`). For a memory of at most 32768 bytes no address of a slot is
negative, and the writer and the reader agree on what fits: the last byte of the memory is never
used, and a record may end right before it.

`Represents` relates the state to a `SlotRing`, which has the cursor as a number of slots and the
slots as values. All that the later modules say about which record stands where is a statement about
the ring.
-/

namespace Journal

open Schedule

/-- The journal: the EEPROM, and the cursor `eeprom_addr`, a global that does not survive a
reset. -/
structure State (L : ℕ) where
  eeprom : Eeprom L
  eepromAddr : Int16

variable {L : ℕ}

/-- What a call of `updateJournal` reads from the rest of the sketch. -/
structure Call where
  now : UInt32
  nextEvent : HatchEvent
  scheduleCounter : Int16
deriving DecidableEq, Repr

/-- The record of a call. -/
def Call.record (call : Call) : Record where
  ts := call.now
  openTime := call.nextEvent.openTime
  closeTime := call.nextEvent.closeTime
  id := call.scheduleCounter

/-- `eeprom_addr + sizeof(record)`, in unsigned 16-bit arithmetic. -/
def endOfRecord (addr : Int16) : UInt16 := addr.toUInt16 + .ofNat sizeofRecord

/-- `EEPROM.length()`. -/
def eepromLength (L : ℕ) : UInt16 := .ofNat L

/-- `updateJournal`. -/
def updateJournal (call : Call) (j : State L) : Option (State L) := do
  let eepromAddr := if eepromLength L ≤ endOfRecord j.eepromAddr then 0 else j.eepromAddr
  let eeprom ← eepromWriteAnything j.eeprom eepromAddr call.record.toBytes
  some { eeprom := eeprom, eepromAddr := (endOfRecord eepromAddr).toInt16 }

/-- The loop of `readJournal` from the address `i` on. Every pass advances by a record, so a bound
on the number of passes is not reached. -/
def readJournalFrom (m : Eeprom L) : ℕ → Int16 → Option (List Record)
  | 0, _ => none
  | passes + 1, i =>
    if endOfRecord i < eepromLength L then do
      let bytes ← eepromReadAnything m i sizeofRecord
      let record := Record.ofBytes bytes
      if record.id = -1 then some []
      else do
        let records ← readJournalFrom m passes (endOfRecord i).toInt16
        some (record :: records)
    else some []

/-- `readJournal`: the records it lists. -/
def readJournal (m : Eeprom L) : Option (List Record) := readJournalFrom m (L + 1) 0

/-- The loop of `clearJournal` from the address `i` on. -/
def clearJournalFrom (m : Eeprom L) : ℕ → Int16 → Option (Eeprom L)
  | 0, _ => none
  | passes + 1, i =>
    if i.toUInt16 < eepromLength L then do
      let m ← m.write i 0xFF
      clearJournalFrom m passes (i + 1)
    else some m

/-- `clearJournal`, answered with yes. -/
def clearJournal (m : Eeprom L) : Option (Eeprom L) := clearJournalFrom m (L + 1) 0

/-- The EEPROM with all bytes erased. -/
def erased (L : ℕ) : Eeprom L := Vector.replicate L 0xFF

/-- The globals after power-up or reset; the EEPROM keeps what it holds. -/
def reset (m : Eeprom L) : State L := { eeprom := m, eepromAddr := 0 }

/-! ### Slots -/

/-- The number of records that fit, the last byte excepted. -/
def slotCount (L : ℕ) : ℕ := (L - 1) / sizeofRecord

/-- A slot is one of them if its record ends before the last byte. -/
theorem lt_slotCount_iff {s : ℕ} (hL : 14 < L) : s < slotCount L ↔ 14 * s + 14 < L := by
  unfold slotCount sizeofRecord
  omega

theorem neZero_slotCount (hL : 14 < L) : NeZero (slotCount L) :=
  ⟨Nat.ne_of_gt ((lt_slotCount_iff hL).2 (by omega))⟩

instance : NeZero (slotCount 1024) := ⟨by decide⟩

/-- The bytes of a slot. -/
def slotBytes (m : Eeprom L) (s : ℕ) : List UInt8 := (m.toList.drop (14 * s)).take 14

/-- The record a slot reads as. -/
def recordAt (m : Eeprom L) (s : ℕ) : Record := .ofBytes (slotBytes m s)

theorem slotBytes_erased {s : ℕ} (hs : 14 * s + 14 ≤ L) :
    slotBytes (erased L) s = erasedBytes := by
  rw [slotBytes, erased, Vector.toList_replicate, List.drop_replicate, List.take_replicate,
    Nat.min_eq_left (by omega)]
  rfl

/-! ### Addresses in 16 bits -/

theorem toNat_ofNat_of_lt {n : ℕ} (h : n < 65536) : (UInt16.ofNat n).toNat = n :=
  UInt16.toNat_ofNat_of_lt' h

theorem toNat_endOfRecord {a : ℕ} (ha : a ≤ 32768) :
    (endOfRecord (.ofNat a)).toNat = a + 14 := by
  have hcast : (Int16.ofNat a).toUInt16 = .ofNat a := rfl
  rw [endOfRecord, hcast, ← UInt16.ofNat_add]
  exact toNat_ofNat_of_lt (by unfold sizeofRecord; omega)

theorem toInt16_endOfRecord (a : ℕ) : (endOfRecord (.ofNat a)).toInt16 = .ofNat (a + 14) := by
  have hcast : (Int16.ofNat a).toUInt16 = .ofNat a := rfl
  rw [endOfRecord, hcast, ← UInt16.ofNat_add]
  rfl

theorem toNat_eepromLength (hL : L ≤ 32768) : (eepromLength L).toNat = L :=
  toNat_ofNat_of_lt (by omega)

/-- The test of the reader, at a slot. -/
theorem endOfRecord_lt_iff (hL : 14 < L) (hL' : L ≤ 32768) {s : ℕ} (hs : s ≤ slotCount L) :
    endOfRecord (.ofNat (14 * s)) < eepromLength L ↔ s < slotCount L := by
  have hle : 14 * s ≤ 32768 := by
    unfold slotCount sizeofRecord at hs
    omega
  rw [UInt16.lt_iff_toNat_lt, toNat_endOfRecord hle, toNat_eepromLength hL', lt_slotCount_iff hL]

/-! ### The reader -/

/-- The reader, from a slot on: the slots up to the end marker. -/
theorem readJournalFrom_eq (hL : 14 < L) (hL' : L ≤ 32768) (m : Eeprom L) :
    ∀ n s passes, s + n = slotCount L → n < passes →
      readJournalFrom m passes (.ofNat (14 * s)) =
        some (((List.range' s n).map (recordAt m)).takeWhile (·.id ≠ -1)) := by
  intro n
  -- On the slots that are still to be read.
  induction n with
  | zero =>
    intro s passes hs hpasses
    obtain ⟨passes, rfl⟩ := Nat.exists_eq_succ_of_ne_zero (Nat.ne_of_gt hpasses)
    rw [readJournalFrom, if_neg (by rw [endOfRecord_lt_iff hL hL' (by omega)]; omega)]
    rfl
  | succ n ih =>
    intro s passes hs hpasses
    obtain ⟨passes, rfl⟩ := Nat.exists_eq_succ_of_ne_zero (Nat.ne_of_gt (by omega : 0 < passes))
    have hslot : s < slotCount L := by omega
    have hfits := (lt_slotCount_iff hL).1 hslot
    have hread : eepromReadAnything m (.ofNat (14 * s)) sizeofRecord = some (slotBytes m s) :=
      eepromReadAnything_ofNat hL' m 14 (14 * s) (by omega)
    have hnext : Int16.ofNat (14 * s + 14) = .ofNat (14 * (s + 1)) := by rw [Nat.mul_succ]
    rw [readJournalFrom, if_pos ((endOfRecord_lt_iff hL hL' hslot.le).2 hslot), hread,
      toInt16_endOfRecord, hnext, ih (s + 1) passes (by omega) (by omega), List.range'_succ,
      List.map_cons, List.takeWhile_cons]
    have hrecord : Record.ofBytes (slotBytes m s) = recordAt m s := rfl
    by_cases hid : (recordAt m s).id = -1 <;> simp [hid, hrecord]

/-- **What `readJournal` lists**: the slots from the first one up to the end marker. -/
theorem readJournal_eq (hL : 14 < L) (hL' : L ≤ 32768) (m : Eeprom L) :
    readJournal m = some (((List.range (slotCount L)).map (recordAt m)).takeWhile (·.id ≠ -1)) := by
  have hpasses : slotCount L < L + 1 := by
    unfold slotCount sizeofRecord
    omega
  rw [List.range_eq_range',
    ← readJournalFrom_eq hL hL' m (slotCount L) 0 (L + 1) (by omega) hpasses]
  rfl

/-- What `readJournal` lists for a slot. -/
def listedAt (m : Eeprom L) (s : ℕ) : Option Record := (readJournal m).bind (·[s]?)

/-- An entry of the longest initial part whose members all have a property. -/
theorem getElem?_takeWhile_eq_some_iff {α : Type*} {p : α → Bool} {l : List α} {i : ℕ} {x : α} :
    (l.takeWhile p)[i]? = some x ↔
      l[i]? = some x ∧ ∀ j ≤ i, ∀ y, l[j]? = some y → p y = true := by
  induction l generalizing i with
  | nil => simp
  | cons a l ih =>
    rw [List.takeWhile_cons]
    by_cases ha : p a = true
    · rw [if_pos ha]
      cases i with
      | zero =>
        refine ⟨fun h ↦ ⟨h, fun j hj y hy ↦ ?_⟩, fun h ↦ h.1⟩
        obtain rfl := Nat.le_zero.1 hj
        rwa [← Option.some.inj hy]
      | succ i =>
        rw [List.getElem?_cons_succ, List.getElem?_cons_succ, ih]
        refine and_congr_right fun _ ↦ ⟨fun h j hj y hy ↦ ?_, fun h j hj ↦ h (j + 1) (by omega)⟩
        cases j with
        | zero => rwa [← Option.some.inj hy]
        | succ j => exact h j (by omega) y hy
    · rw [if_neg ha]
      exact iff_of_false (by simp) fun h ↦ ha (h.2 0 (Nat.zero_le i) a rfl)

/-- **A slot is listed** when neither it nor a slot before it reads as the end marker. -/
theorem listedAt_eq_some_iff (hL : 14 < L) (hL' : L ≤ 32768) {m : Eeprom L} {s : ℕ}
    {record : Record} :
    listedAt m s = some record ↔
      s < slotCount L ∧ (∀ i ≤ s, (recordAt m i).id ≠ -1) ∧ recordAt m s = record := by
  have hget : ∀ i < slotCount L,
      ((List.range (slotCount L)).map (recordAt m))[i]? = some (recordAt m i) := by
    intro i hi
    rw [List.getElem?_map, List.getElem?_range hi, Option.map_some]
  rw [listedAt, readJournal_eq hL hL', Option.bind_some, getElem?_takeWhile_eq_some_iff]
  constructor
  · rintro ⟨hs, hall⟩
    have hlt : s < slotCount L := by
      have := (List.getElem?_eq_some_iff.1 hs).1
      rwa [List.length_map, List.length_range] at this
    rw [hget s hlt, Option.some_inj] at hs
    exact ⟨hlt, fun i hi ↦ of_decide_eq_true (hall i hi _ (hget i (by omega))), hs⟩
  · rintro ⟨hlt, hall, rfl⟩
    refine ⟨hget s hlt, fun i hi y hy ↦ ?_⟩
    rw [hget i (by omega), Option.some_inj] at hy
    rw [← hy]
    exact decide_eq_true (hall i hi)

/-! ### Clearing -/

/-- From an address on, with the bytes before it erased already: the loop erases the rest. -/
theorem clearJournalFrom_eq (hL : L ≤ 32768) :
    ∀ n a passes, a + n = L → n < passes → ∀ m : Eeprom L,
      (∀ i < a, m.toList[i]? = some 0xFF) →
        clearJournalFrom m passes (.ofNat a) = some (erased L) := by
  intro n
  -- On the bytes that are still to be erased.
  induction n with
  | zero =>
    intro a passes ha hpasses m hm
    obtain ⟨passes, rfl⟩ := Nat.exists_eq_succ_of_ne_zero (Nat.ne_of_gt hpasses)
    have hcast : (Int16.ofNat a).toUInt16 = .ofNat a := rfl
    have hend : ¬ (Int16.ofNat a).toUInt16 < eepromLength L := by
      rw [UInt16.lt_iff_toNat_lt, hcast, toNat_ofNat_of_lt (by omega), toNat_eepromLength hL]
      omega
    rw [clearJournalFrom, if_neg hend]
    refine congrArg some (Vector.toList_inj.1 (List.ext_getElem? fun i ↦ ?_))
    rw [erased, Vector.toList_replicate, List.getElem?_replicate]
    split
    · exact hm i (by omega)
    · exact List.getElem?_eq_none (by rw [Vector.length_toList]; omega)
  | succ n ih =>
    intro a passes ha hpasses m hm
    obtain ⟨passes, rfl⟩ := Nat.exists_eq_succ_of_ne_zero (Nat.ne_of_gt (by omega : 0 < passes))
    have hcast : (Int16.ofNat a).toUInt16 = .ofNat a := rfl
    have hgo : (Int16.ofNat a).toUInt16 < eepromLength L := by
      rw [UInt16.lt_iff_toNat_lt, hcast, toNat_ofNat_of_lt (by omega), toNat_eepromLength hL]
      omega
    rw [clearJournalFrom, if_pos hgo, Eeprom.write, index?_ofNat hL (by omega), ofNat_add_one]
    refine ih (a + 1) passes (by omega) (by omega) (m.set a 0xFF (by omega)) fun i hi ↦ ?_
    rw [Vector.toList_set, List.getElem?_set]
    by_cases hia : a = i
    · rw [if_pos hia, if_pos (by rw [Vector.length_toList]; omega)]
    · rw [if_neg hia]
      exact hm i (by omega)

/-- **`clearJournal` erases every byte**, and none outside the memory. -/
theorem clearJournal_eq (hL : L ≤ 32768) (m : Eeprom L) : clearJournal m = some (erased L) :=
  clearJournalFrom_eq hL L 0 (L + 1) (by omega) (by omega) m (by omega)

/-! ### The writer -/

/-- The bytes of a slot last written by a call, or by none. -/
def bytesOf : Option Call → List UInt8
  | some call => call.record.toBytes
  | none => erasedBytes

/-- The EEPROM and the cursor stand for a ring of calls. -/
structure Represents (j : State L) (ring : SlotRing (slotCount L) Call) : Prop where
  slotBytes_eq : ∀ s < slotCount L, slotBytes j.eeprom s = bytesOf (ring.slots s)
  eepromAddr_eq : j.eepromAddr = .ofNat (14 * ring.cursor)

theorem represents_erased (hL : 14 < L) : Represents (reset (erased L)) .empty where
  slotBytes_eq _ hs := slotBytes_erased ((lt_slotCount_iff hL).1 hs).le
  eepromAddr_eq := rfl

/-- A reset of the sketch is a reset of the ring. -/
theorem Represents.reset {j : State L} {ring : SlotRing (slotCount L) Call}
    (h : Represents j ring) : Represents (reset j.eeprom) ring.reset where
  slotBytes_eq := h.slotBytes_eq
  eepromAddr_eq := rfl

/-- What is written from the start of a slot on stands there then, before what stood there; the
other slots keep their bytes. -/
theorem slotBytes_of_written {m m' : Eeprom L} {bytes : List UInt8} (hlen : bytes.length ≤ 14)
    {p : ℕ} (hget : ∀ i, m'.toList[i]? =
      if 14 * p ≤ i ∧ i < 14 * p + bytes.length then bytes[i - 14 * p]? else m.toList[i]?) (s : ℕ) :
    slotBytes m' s =
      if s = p then bytes ++ (slotBytes m s).drop bytes.length else slotBytes m s := by
  refine List.ext_getElem? fun i ↦ ?_
  -- Byte by byte: inside slot `p` the written bytes come first and the old ones after them.
  rcases Nat.lt_or_ge i 14 with hi | hi
  · by_cases hs : s = p
    · subst hs
      rw [if_pos rfl, slotBytes, List.getElem?_take_of_lt hi, List.getElem?_drop, hget,
        Nat.add_sub_cancel_left]
      by_cases hwritten : i < bytes.length
      · rw [if_pos (by omega), List.getElem?_append_left hwritten]
      · have hsub : bytes.length + (i - bytes.length) = i := by omega
        rw [if_neg (by omega), List.getElem?_append_right (by omega), List.getElem?_drop, hsub,
          slotBytes, List.getElem?_take_of_lt hi, List.getElem?_drop]
    · rw [if_neg hs, slotBytes, slotBytes, List.getElem?_take_of_lt hi, List.getElem?_drop, hget,
        if_neg (by omega), List.getElem?_take_of_lt hi, List.getElem?_drop]
  · have hnone : ∀ l : List UInt8, l.length ≤ 14 → l[i]? = none :=
      fun l hl ↦ List.getElem?_eq_none (hl.trans hi)
    rw [hnone _ (by rw [slotBytes, List.length_take]; omega), hnone _ ?_]
    split
    · rw [List.length_append, List.length_drop, slotBytes, List.length_take]
      omega
    · rw [slotBytes, List.length_take]
      omega

/-- The address `updateJournal` writes to: the slot the cursor stands for. -/
theorem Represents.address_eq (hL : 14 < L) (hL' : L ≤ 32768) {j : State L}
    {ring : SlotRing (slotCount L) Call} (h : Represents j ring) :
    (if eepromLength L ≤ endOfRecord j.eepromAddr then 0 else j.eepromAddr) =
      Int16.ofNat (14 * ring.position) := by
  have hiff := endOfRecord_lt_iff hL hL' ring.cursor_le
  have hcursor := ring.cursor_le
  rw [← not_iff_not, UInt16.not_lt, not_lt] at hiff
  rw [h.eepromAddr_eq, SlotRing.position]
  by_cases hend : ring.cursor = slotCount L
  · rw [if_pos hend, if_pos (hiff.2 hend.ge)]
    rfl
  · rw [if_neg hend, if_neg fun hle ↦ hend (by have := hiff.1 hle; omega)]

/-- **`updateJournal` writes one record to the ring**, inside the memory. -/
theorem represents_update (hL : 14 < L) (hL' : L ≤ 32768) [NeZero (slotCount L)] (call : Call)
    {j : State L} {ring : SlotRing (slotCount L) Call} (h : Represents j ring) :
    ∃ j', updateJournal call j = some j' ∧ Represents j' (ring.write call) := by
  have haddr := h.address_eq hL hL'
  have hfits := (lt_slotCount_iff hL).1 ring.position_lt
  obtain ⟨m', hm', hget⟩ := eepromWriteAnything_ofNat hL' call.record.toBytes j.eeprom
    (14 * ring.position) (by rw [Record.length_toBytes]; unfold sizeofRecord; omega)
  refine ⟨⟨m', .ofNat (14 * (ring.position + 1))⟩, ?_, ?_, rfl⟩
  · have hnext : Int16.ofNat (14 * ring.position + 14) = .ofNat (14 * (ring.position + 1)) := by
      rw [Nat.mul_succ]
    simp only [updateJournal, haddr, hm', toInt16_endOfRecord, hnext]
    rfl
  · intro s hs
    have hdrop : (slotBytes j.eeprom s).drop call.record.toBytes.length = [] :=
      List.drop_eq_nil_of_le (by rw [Record.length_toBytes]; exact List.length_take_le _ _)
    simp only
    rw [slotBytes_of_written (Record.length_toBytes _).le hget s, SlotRing.slots_write,
      Function.update_apply, hdrop, List.append_nil, h.slotBytes_eq s hs]
    split <;> rfl

end Journal
