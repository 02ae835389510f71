import Analemma.Journal.History

/-!
# Power lost in the middle of a record

`updateJournal` writes a record byte by byte over what stands in its slot, the number last. When
power is lost after `k` bytes, the slot holds the first `k` bytes of the new record and the others
of what stood there (`tornBytes`); every other slot is as it was.

Nothing in the slot says that it was written in full. The reader lists the mixture like a record,
unless it happens to read as the end marker, or one of the two is there in full, or the reader does
not come as far (`powerLoss_iff`). A slot that was erased is safe for as long as no byte of the
number has been written (`id_tornBytes_erased`).

The failure is between two bytes. A byte that is being written when the power goes is not modelled;
it counts as written or as not.
-/

namespace Journal

open SlotRing

variable {L : ℕ}

/-- The address to which `updateJournal` writes. -/
def recordAddress (j : State L) : Int16 :=
  if eepromLength L ≤ endOfRecord j.eepromAddr then 0 else j.eepromAddr

/-- `updateJournal`, with power lost after `k` bytes of the record: the EEPROM that is left. -/
def updateJournalUntil (k : ℕ) (call : Call) (j : State L) : Option (Eeprom L) :=
  eepromWriteAnything j.eeprom (recordAddress j) (call.record.toBytes.take k)

/-! ### The torn slot -/

/-- The first `k` bytes of a new record before the others of what stood there. -/
def tornBytes (k : ℕ) (call : Call) (old : List UInt8) : List UInt8 :=
  call.record.toBytes.take k ++ old.drop k

/-- Neither what was written nor what is left is the same in the old bytes and the new ones. -/
def Torn (k : ℕ) (call : Call) (old : List UInt8) : Prop :=
  call.record.toBytes.take k ≠ old.take k ∧ call.record.toBytes.drop k ≠ old.drop k

instance (k : ℕ) (call : Call) (old : List UInt8) : Decidable (Torn k call old) :=
  inferInstanceAs (Decidable (_ ∧ _))

/-- A slot has the bytes of a record, whether one was written or not. -/
theorem length_bytesOf (written : Option Call) : (bytesOf written).length = sizeofRecord := by
  cases written with
  | none => rfl
  | some call => exact call.record.length_toBytes

section TornBytes

variable {k : ℕ} {call : Call} {old : List UInt8} (hold : old.length = sizeofRecord)

include hold

theorem length_tornBytes : (tornBytes k call old).length = sizeofRecord := by
  rw [tornBytes, List.length_append, List.length_take, List.length_drop, hold,
    Record.length_toBytes]
  omega

omit hold in
/-- The slot holds the new record where the bytes that were not written are its own. -/
theorem tornBytes_eq_new_iff :
    tornBytes k call old = call.record.toBytes ↔ call.record.toBytes.drop k = old.drop k := by
  conv_lhs => rhs; rw [← List.take_append_drop k call.record.toBytes]
  rw [tornBytes, List.append_right_inj]
  exact eq_comm

/-- The slot holds what it held where the bytes that were written are the same. -/
theorem tornBytes_eq_old_iff :
    tornBytes k call old = old ↔ call.record.toBytes.take k = old.take k := by
  conv_lhs => rhs; rw [← List.take_append_drop k old]
  rw [tornBytes]
  refine ⟨fun h ↦ (List.append_inj h ?_).1, fun h ↦ by rw [h]⟩
  rw [List.length_take, List.length_take, hold, Record.length_toBytes]

end TornBytes

/-- In an erased slot, before the number is reached, the mixture reads as the end marker. -/
theorem id_tornBytes_erased {k : ℕ} (hk : k ≤ 12) (call : Call) :
    (Record.ofBytes (tornBytes k call erasedBytes)).id = -1 := by
  have hlen : (call.record.toBytes.take k).length = k := by
    rw [List.length_take, Record.length_toBytes]
    unfold sizeofRecord
    omega
  have hsub : k + (12 - k) = 12 := by omega
  have hnumber : (tornBytes k call erasedBytes).drop 12 = erasedBytes.drop 12 := by
    rw [tornBytes, List.drop_append, hlen, List.drop_drop, hsub,
      List.drop_eq_nil_of_le (by omega), List.nil_append]
  rw [← ofBytes_erasedBytes_id]
  simp only [Record.ofBytes, hnumber]

/-! ### What is listed afterwards -/

/-- A record that a call wrote in full to a slot: the last one before the power was lost, or the new
one. -/
def WrittenInFull (S : ℕ) (h : List (Op Call)) (call : Call) (s : ℕ) (record : Record) : Prop :=
  (∃ c, lastWrite S h s = some c ∧ record = c.record) ∨
    (s = sinceReset h % S ∧ record = call.record)

/-- What stood in a slot before was written in full, if it is listed. -/
theorem writtenInFull_of_held {S : ℕ} {h : List (Op Call)} {call : Call} {s : ℕ} {record : Record}
    (hid : record.id ≠ -1) (heq : Record.ofBytes (bytesOf (lastWrite S h s)) = record) :
    WrittenInFull S h call s record := by
  subst heq
  cases hlast : lastWrite S h s with
  | none =>
    rw [hlast] at hid
    exact absurd ofBytes_erasedBytes_id hid
  | some c => exact Or.inl ⟨c, hlast, ofBytes_bytesOf_some c⟩

/-- The mixture was written in full if it is not torn, and only then. -/
theorem writtenInFull_torn_iff {S : ℕ} {h : List (Op Call)} {call : Call} {k : ℕ}
    (hid : (Record.ofBytes
      (tornBytes k call (bytesOf (lastWrite S h (sinceReset h % S))))).id ≠ -1) :
    WrittenInFull S h call (sinceReset h % S)
        (Record.ofBytes (tornBytes k call (bytesOf (lastWrite S h (sinceReset h % S))))) ↔
      ¬ Torn k call (bytesOf (lastWrite S h (sinceReset h % S))) := by
  set old := bytesOf (lastWrite S h (sinceReset h % S)) with hset
  have hold : old.length = sizeofRecord := length_bytesOf _
  have hlen : (tornBytes k call old).length = sizeofRecord := length_tornBytes hold
  constructor
  · rintro (⟨c, hlast, heq⟩ | ⟨-, heq⟩) ⟨hnew, hrest⟩
    · -- the mixture would be the old record
      have hbytes : old = c.record.toBytes := by rw [hset, hlast, bytesOf]
      rw [← Record.ofBytes_toBytes c.record, ← hbytes, Record.ofBytes_inj hlen hold,
        tornBytes_eq_old_iff hold] at heq
      exact hnew heq
    · -- the mixture would be the new record
      rw [← Record.ofBytes_toBytes call.record, Record.ofBytes_inj hlen (Record.length_toBytes _),
        tornBytes_eq_new_iff] at heq
      exact hrest heq
  · intro htorn
    rw [Torn, not_and_or, not_not, not_not] at htorn
    rcases htorn with htake | hdrop
    · rw [(tornBytes_eq_old_iff hold).2 htake] at hid ⊢
      exact writtenInFull_of_held hid rfl
    · rw [tornBytes_eq_new_iff.2 hdrop, Record.ofBytes_toBytes]
      exact Or.inr ⟨rfl, rfl⟩

/-- The EEPROM after the power was lost. -/
theorem updateJournalUntil_slots (hL : 14 < L) (hL' : L ≤ 32768) (h : List (Op Call)) (call : Call)
    (k : ℕ) :
    ∃ j m, history h (reset (erased L)) = some j ∧ updateJournalUntil k call j = some m ∧
      ∀ s < slotCount L, slotBytes m s =
        if s = sinceReset h % slotCount L then
          tornBytes k call (bytesOf (lastWrite (slotCount L) h s))
        else bytesOf (lastWrite (slotCount L) h s) := by
  have := neZero_slotCount hL
  obtain ⟨j, hj, hrep⟩ := history_represents hL hL' h
  have hfits := (lt_slotCount_iff hL).1 (run (slotCount L) h).position_lt
  have hlen : (call.record.toBytes.take k).length ≤ 14 := by
    rw [List.length_take, Record.length_toBytes]
    exact min_le_right _ _
  obtain ⟨m, hm, hget⟩ := eepromWriteAnything_ofNat hL' (call.record.toBytes.take k) j.eeprom
    (14 * (run (slotCount L) h).position) (by omega)
  refine ⟨j, m, hj, ?_, fun s hs ↦ ?_⟩
  · rw [updateJournalUntil, recordAddress, hrep.address_eq hL hL']
    exact hm
  · rw [slotBytes_of_written hlen hget s, position_run, hrep.slotBytes_eq s hs, slots_run,
      List.length_take, Record.length_toBytes]
    refine if_congr Iff.rfl ?_ rfl
    rw [tornBytes]
    -- past the end of the record there is nothing to drop
    rcases Nat.le_total k sizeofRecord with hk | hk
    · rw [Nat.min_eq_left hk]
    · rw [Nat.min_eq_right hk, List.drop_eq_nil_of_le (length_bytesOf _).le,
        List.drop_eq_nil_of_le ((length_bytesOf _).le.trans hk)]

/-- **What a power failure can do.** After any history from an erased EEPROM, let power be lost when
a call has written `k` bytes. Every slot but the one the call was writing to is as it was, and that
one holds the mixture. All that is listed afterwards has been written in full exactly when the
mixture is one of the two records, or reads as the end marker, or lies behind a slot that does; so
always where the slot was erased and no byte of the number has been written. -/
theorem powerLoss_iff (hL : 14 < L) (hL' : L ≤ 32768) (h : List (Op Call)) (call : Call) (k : ℕ) :
    let S := slotCount L
    let old := bytesOf (lastWrite S h (sinceReset h % S))
    ∃ j m, history h (reset (erased L)) = some j ∧ updateJournalUntil k call j = some m ∧
      (∀ s < S, slotBytes m s =
        if s = sinceReset h % S then tornBytes k call old else bytesOf (lastWrite S h s)) ∧
      ((∀ s record, listedAt m s = some record → WrittenInFull S h call s record) ↔
        ¬ (Torn k call old ∧ (Record.ofBytes (tornBytes k call old)).id ≠ -1 ∧
          ∀ s < sinceReset h % S, (Record.ofBytes (bytesOf (lastWrite S h s))).id ≠ -1)) ∧
      (lastWrite S h (sinceReset h % S) = none → k ≤ 12 →
        ∀ s record, listedAt m s = some record → WrittenInFull S h call s record) := by
  have := neZero_slotCount hL
  intro S old
  obtain ⟨j, m, hj, hm, hslots⟩ := updateJournalUntil_slots hL hL' h call k
  have hpS : sinceReset h % S < S := Nat.mod_lt _ (Nat.pos_of_neZero _)
  have htorn : recordAt m (sinceReset h % S) = Record.ofBytes (tornBytes k call old) := by
    rw [recordAt, hslots _ hpS, if_pos rfl]
  have hother : ∀ s < S, s ≠ sinceReset h % S →
      recordAt m s = Record.ofBytes (bytesOf (lastWrite S h s)) :=
    fun s hs hne ↦ by rw [recordAt, hslots s hs, if_neg hne]
  have hiff : (∀ s record, listedAt m s = some record → WrittenInFull S h call s record) ↔
      ¬ (Torn k call old ∧ (Record.ofBytes (tornBytes k call old)).id ≠ -1 ∧
        ∀ s < sinceReset h % S, (Record.ofBytes (bytesOf (lastWrite S h s))).id ≠ -1) := by
    constructor
    · rintro hall ⟨htear, hid, hbefore⟩
      -- the reader comes to the mixture
      have hlisted : listedAt m (sinceReset h % S) =
          some (Record.ofBytes (tornBytes k call old)) := by
        refine (listedAt_eq_some_iff hL hL').2 ⟨hpS, fun i hi ↦ ?_, htorn⟩
        rcases Nat.lt_or_eq_of_le hi with hlt | rfl
        · rw [hother i (hlt.trans hpS) hlt.ne]
          exact hbefore i hlt
        · rwa [htorn]
      exact (writtenInFull_torn_iff hid).1 (hall _ _ hlisted) htear
    · intro hnot s record hlisted
      obtain ⟨hs, hids, heq⟩ := (listedAt_eq_some_iff hL hL').1 hlisted
      have hid : record.id ≠ -1 := heq ▸ hids s le_rfl
      by_cases hsp : s = sinceReset h % S
      · subst hsp
        rw [htorn] at heq
        subst heq
        refine (writtenInFull_torn_iff hid).2 fun htear ↦ hnot ⟨htear, hid, fun i hi ↦ ?_⟩
        rw [← hother i (hi.trans hpS) hi.ne]
        exact hids i hi.le
      · exact writtenInFull_of_held hid (by rw [← hother s hs hsp, heq])
  refine ⟨j, m, hj, hm, fun s hs ↦ ?_, hiff, fun hnone hk ↦ hiff.2 ?_⟩
  · rw [hslots s hs]
    by_cases hsp : s = sinceReset h % S
    · rw [if_pos hsp, if_pos hsp, hsp]
    · rw [if_neg hsp, if_neg hsp]
  · rintro ⟨-, hid, -⟩
    have hbytes : old = erasedBytes := congrArg bytesOf hnone
    rw [hbytes] at hid
    exact hid (id_tornBytes_erased hk call)

/-- **A record can be listed that no call has written**: with its number's last byte missing the
mixture has another number, and is not the end marker. -/
theorem powerLoss_forges :
    ¬ ∀ (h : List (Op Call)) (call : Call) (k : ℕ), k ≤ 14 →
      ∃ j m, history h (reset (erased 1024)) = some j ∧ updateJournalUntil k call j = some m ∧
        ∀ s record, listedAt m s = some record →
          ∃ c ∈ values h ++ [call], record = c.record := by
  intro hclaim
  set call : Call := ⟨946684800, ⟨946699200, 946706400⟩, 0⟩ with hcall
  obtain ⟨j, m, hj, hm, hall⟩ := hclaim [] call 13 (by decide)
  obtain ⟨j', m', hj', hm', hslots⟩ :=
    updateJournalUntil_slots (L := 1024) (by decide) (by decide) [] call 13
  rw [hj, Option.some_inj] at hj'
  subst hj'
  rw [hm, Option.some_inj] at hm'
  subst hm'
  -- the high byte of the number is still erased
  have hzero : recordAt m 0 = ⟨946684800, 946699200, 946706400, -256⟩ := by
    rw [recordAt, hslots 0 (by decide)]
    decide
  have hlisted : listedAt m 0 = some ⟨946684800, 946699200, 946706400, -256⟩ := by
    refine (listedAt_eq_some_iff (by decide) (by decide)).2 ⟨by decide, fun i hi ↦ ?_, hzero⟩
    rw [Nat.le_zero.1 hi, hzero]
    decide
  obtain ⟨c, hc, heq⟩ := hall 0 _ hlisted
  rw [List.mem_singleton.1 hc] at heq
  exact absurd heq (by decide)

/-- On the chip's 1024 bytes, a record stands in the first slot from the power-up before, and power
is lost after the four bytes of the time of the next one, which goes there, too. What is listed then
was never written: the new time with the old events. -/
theorem powerLoss_chip :
    let h : List (Op Call) := [.write ⟨946684800, ⟨946699200, 946706400⟩, 0⟩, .reset]
    let call : Call := ⟨946710000, ⟨946720800, 946720920⟩, 0⟩
    ∃ j m, history h (reset (erased 1024)) = some j ∧ updateJournalUntil 4 call j = some m ∧
      slotBytes m 0 = tornBytes 4 call (Call.mk 946684800 ⟨946699200, 946706400⟩ 0).record.toBytes ∧
      ¬ ∀ s record, listedAt m s = some record →
        WrittenInFull (slotCount 1024) h call s record := by
  obtain ⟨j, m, hj, hm, hslots, hiff, -⟩ := powerLoss_iff (L := 1024) (by decide) (by decide)
    [.write ⟨946684800, ⟨946699200, 946706400⟩, 0⟩, .reset]
    ⟨946710000, ⟨946720800, 946720920⟩, 0⟩ 4
  exact ⟨j, m, hj, hm, hslots 0 (by decide), hiff.not.2 (not_not.2 (by decide))⟩

end Journal
