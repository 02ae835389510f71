import Analemma.Foundation.LittleEndian
import Mathlib.Data.List.Basic

/-!
# Records in the EEPROM

The journal's `Record` as the compiler lays it out on the AVR: three 32-bit `time_t` and a 16-bit
`int`, little-endian and without padding, 14 bytes in all. `EEPROM_writeAnything` and
`EEPROM_readAnything` copy these bytes one at a time.

The EEPROM has `L` bytes. A write or a read outside of them has no outcome (`none`); an address is
an `int`, so 16 bits and signed.

Copying byte by byte is modelled as it is, since a failure of the power may come between two bytes,
and a failed write has to show. For addresses inside of the memory the two copies have results that
do not mention 16 bits any more (`eepromWriteAnything_ofNat`, `eepromReadAnything_ofNat`), and the
rest of the development uses these.
-/

namespace Journal

open LittleEndian

/-! ### The record -/

/-- An entry of the journal: when it was written, the two times of the event, and its number. -/
@[ext]
structure Record where
  ts : UInt32
  openTime : UInt32
  closeTime : UInt32
  id : Int16
deriving DecidableEq, Repr

/-- `sizeof(record)`. -/
def sizeofRecord : ℕ := 14

/-- The bytes of a record in memory. -/
def Record.toBytes (record : Record) : List UInt8 :=
  encode 4 record.ts.toNat ++ (encode 4 record.openTime.toNat ++
    (encode 4 record.closeTime.toNat ++ encode 2 record.id.toUInt16.toNat))

/-- The record that stands in memory as these bytes. -/
def Record.ofBytes (bytes : List UInt8) : Record where
  ts := .ofNat (decode (bytes.take 4))
  openTime := .ofNat (decode ((bytes.drop 4).take 4))
  closeTime := .ofNat (decode ((bytes.drop 8).take 4))
  id := (UInt16.ofNat (decode ((bytes.drop 12).take 2))).toInt16

/-- A record has as many bytes as it is large. -/
@[simp] theorem Record.length_toBytes (record : Record) :
    record.toBytes.length = sizeofRecord := by
  simp only [toBytes, List.length_append, length_encode, sizeofRecord]

theorem ofNat_decode_encode_four (x : UInt32) : UInt32.ofNat (decode (encode 4 x.toNat)) = x := by
  rw [decode_encode_of_lt x.toNat_lt, UInt32.ofNat_toNat]

theorem ofNat_decode_encode_two (x : UInt16) : UInt16.ofNat (decode (encode 2 x.toNat)) = x := by
  rw [decode_encode_of_lt x.toNat_lt, UInt16.ofNat_toNat]

/-- **A record is read back as it was written.** -/
@[simp] theorem Record.ofBytes_toBytes (record : Record) : ofBytes record.toBytes = record := by
  have h0 : (record.toBytes.take 4) = encode 4 record.ts.toNat :=
    List.take_left' (length_encode 4 _)
  have h4 : (record.toBytes.drop 4).take 4 = encode 4 record.openTime.toNat := by
    rw [toBytes, List.drop_left' (length_encode 4 _), List.take_left' (length_encode 4 _)]
  have h8 : (record.toBytes.drop 8).take 4 = encode 4 record.closeTime.toNat := by
    rw [toBytes, ← List.append_assoc, List.drop_left' (by simp), List.take_left' (by simp)]
  have h12 : (record.toBytes.drop 12).take 2 = encode 2 record.id.toUInt16.toNat := by
    rw [toBytes, ← List.append_assoc, ← List.append_assoc, List.drop_left' (by simp),
      List.take_of_length_le (by simp)]
  simp only [ofBytes, h0, h4, h8, h12, ofNat_decode_encode_four, ofNat_decode_encode_two]
  rfl

/-- **Any bytes are those of a record**, the one that is read from them. -/
theorem Record.toBytes_ofBytes {bytes : List UInt8} (h : bytes.length = sizeofRecord) :
    (ofBytes bytes).toBytes = bytes := by
  unfold sizeofRecord at h
  have hencode : ∀ {k : ℕ} {part : List UInt8}, part.length = k →
      encode k (decode part) = part := fun hk ↦ by rw [← hk, encode_decode]
  have hfour : ∀ part : List UInt8, part.length = 4 →
      encode 4 (UInt32.ofNat (decode part)).toNat = part := by
    intro part hpart
    have hlt := decode_lt part
    rw [hpart] at hlt
    rw [UInt32.toNat_ofNat_of_lt' hlt, hencode hpart]
  have htwo : ∀ part : List UInt8, part.length = 2 →
      encode 2 (UInt16.ofNat (decode part)).toInt16.toUInt16.toNat = part := by
    intro part hpart
    have hlt := decode_lt part
    rw [hpart] at hlt
    rw [UInt16.toUInt16_toInt16, UInt16.toNat_ofNat_of_lt' hlt, hencode hpart]
  simp only [toBytes, ofBytes]
  rw [hfour _ (by simp [h]), hfour _ (by simp [h]), hfour _ (by simp [h]), htwo _ (by simp [h])]
  -- the four parts are the whole
  rw [List.take_of_length_le (show ((bytes.drop 12)).length ≤ 2 by rw [List.length_drop]; omega),
    show bytes.drop 12 = (bytes.drop 8).drop 4 by rw [List.drop_drop], List.take_append_drop,
    show bytes.drop 8 = (bytes.drop 4).drop 4 by rw [List.drop_drop], List.take_append_drop,
    List.take_append_drop]

/-- Records are read alike from bytes that are alike only. -/
theorem Record.ofBytes_inj {bytes bytes' : List UInt8} (h : bytes.length = sizeofRecord)
    (h' : bytes'.length = sizeofRecord) : ofBytes bytes = ofBytes bytes' ↔ bytes = bytes' := by
  refine ⟨fun heq ↦ ?_, fun heq ↦ by rw [heq]⟩
  rw [← toBytes_ofBytes h, ← toBytes_ofBytes h', heq]

/-- The bytes of a slot that was never written. -/
def erasedBytes : List UInt8 := List.replicate sizeofRecord 0xFF

/-- The end marker: a slot that was never written reads as a record with the number `-1`. -/
theorem ofBytes_erasedBytes_id : (Record.ofBytes erasedBytes).id = -1 := by decide

/-! ### The memory -/

/-- An EEPROM of `L` bytes. -/
abbrev Eeprom (L : ℕ) := Vector UInt8 L

variable {L : ℕ}

/-- An address as an index, if it is one. -/
def index? (L : ℕ) (addr : Int16) : Option (Fin L) :=
  if h : 0 ≤ addr.toInt ∧ addr.toInt.toNat < L then some ⟨addr.toInt.toNat, h.2⟩ else none

/-- `EEPROM.write(addr, val)`. -/
def Eeprom.write (m : Eeprom L) (addr : Int16) (val : UInt8) : Option (Eeprom L) :=
  (index? L addr).map fun i ↦ m.set i.val val i.isLt

/-- `EEPROM.read(addr)`. -/
def Eeprom.read (m : Eeprom L) (addr : Int16) : Option UInt8 :=
  (index? L addr).map fun i ↦ m[i]

/-- `EEPROM_writeAnything(ee, value)`, for a value with these bytes. -/
def eepromWriteAnything (m : Eeprom L) (ee : Int16) : List UInt8 → Option (Eeprom L)
  | [] => some m
  | p :: bytes => do
    let m ← m.write ee p
    eepromWriteAnything m (ee + 1) bytes

/-- `EEPROM_readAnything(ee, value)`, for a value of this size. -/
def eepromReadAnything (m : Eeprom L) (ee : Int16) : ℕ → Option (List UInt8)
  | 0 => some []
  | size + 1 => do
    let p ← m.read ee
    let bytes ← eepromReadAnything m (ee + 1) size
    some (p :: bytes)

/-! ### What the copies do -/

theorem index?_ofNat {a : ℕ} (hL : L ≤ 32768) (ha : a < L) :
    index? L (.ofNat a) = some ⟨a, ha⟩ := by
  have hint : (Int16.ofNat a).toInt = a := Int16.toInt_ofNat_of_lt (by omega)
  have hnat : (Int16.ofNat a).toInt.toNat = a := by rw [hint]; rfl
  unfold index?
  rw [dif_pos ⟨by omega, by omega⟩]
  simp only [hnat]

theorem ofNat_add_one (a : ℕ) : Int16.ofNat a + 1 = Int16.ofNat (a + 1) :=
  (Int16.ofNat_add a 1).symm

/-- **The writer** changes the bytes it is given to write, and no other. -/
theorem eepromWriteAnything_ofNat (hL : L ≤ 32768) (bytes : List UInt8) :
    ∀ (m : Eeprom L) (a : ℕ), a + bytes.length ≤ L →
      ∃ m', eepromWriteAnything m (.ofNat a) bytes = some m' ∧
        ∀ i, m'.toList[i]? =
          if a ≤ i ∧ i < a + bytes.length then bytes[i - a]? else m.toList[i]? := by
  induction bytes with
  | nil => exact fun m a _ ↦ ⟨m, rfl, fun i ↦ by rw [if_neg (by simp)]⟩
  | cons p bytes ih =>
    intro m a ha
    rw [List.length_cons] at ha
    obtain ⟨m', hm', hget⟩ := ih (m.set a p (by omega)) (a + 1) (by omega)
    refine ⟨m', ?_, fun i ↦ ?_⟩
    · rw [eepromWriteAnything, Eeprom.write, index?_ofNat hL (by omega), ofNat_add_one]
      exact hm'
    · rw [hget, Vector.toList_set, List.getElem?_set, List.length_cons]
      rcases lt_trichotomy i a with hlt | rfl | hgt
      · rw [if_neg (by omega), if_neg (by omega), if_neg (by omega)]
      · rw [if_neg (by omega), if_pos rfl, if_pos (by rw [Vector.length_toList]; omega),
          if_pos (by omega), Nat.sub_self, List.getElem?_cons_zero]
      · have hsub : i - a = i - (a + 1) + 1 := by omega
        rw [if_neg (show ¬ a = i by omega), hsub, List.getElem?_cons_succ]
        exact if_congr (by omega) rfl rfl

/-- **The reader** returns the bytes that stand there. -/
theorem eepromReadAnything_ofNat (hL : L ≤ 32768) (m : Eeprom L) (size : ℕ) :
    ∀ a, a + size ≤ L →
      eepromReadAnything m (.ofNat a) size = some ((m.toList.drop a).take size) := by
  induction size with
  | zero => exact fun a _ ↦ by rw [List.take_zero]; rfl
  | succ size ih =>
    intro a ha
    have hlt : a < m.toList.length := by rw [Vector.length_toList]; omega
    rw [eepromReadAnything, Eeprom.read, index?_ofNat hL (by omega), ofNat_add_one,
      ih (a + 1) (by omega), List.drop_eq_getElem_cons hlt, List.take_succ_cons]
    rfl

end Journal
