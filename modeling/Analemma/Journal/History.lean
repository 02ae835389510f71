import Analemma.Journal.Basic

/-!
# What the journal keeps

Histories of `updateJournal` calls and resets, from an erased EEPROM. The journal is the ring of
`SlotRing` throughout (`history_represents`), so its lemmas say what stands in which slot.

* Within one power-up the last records that fit are there, and `readJournal` lists exactly these
  (`journal_roundTrip`).
* Over resets the EEPROM keeps every byte, but `eeprom_addr` starts again at the first slot: a slot
  holds the record last written under its number since a reset (`journal_resets`). The records of
  the current power-up are safe; older ones go as soon as their slot is reached, whether or not
  erased slots remain (`reset_overwrites`).

A history is a list of operations of the ring library, and `history` runs the journal's own code on
it, in which each step may fail. That it does not fail, and which ring it stands for afterwards, is
one induction (`history_represents`). The two results of the module translate facts about rings into
bytes of slots and records listed.

The numbers of the records matter to the reader only by the end marker: a record that is numbered
`-1` would end the listing, and the round trip excludes it by its hypothesis.
-/

namespace Journal

open SlotRing

variable {L : ℕ}

/-- A call or a reset. -/
def step (j : State L) : Op Call → Option (State L)
  | .write call => updateJournal call j
  | .reset => some (reset j.eeprom)

/-- The calls and resets of a history, one after the other. -/
def history (h : List (Op Call)) (j : State L) : Option (State L) := h.foldlM step j

theorem history_append_singleton (h : List (Op Call)) (op : Op Call) (j : State L) :
    history (h ++ [op]) j = (history h j).bind (step · op) := by
  simp [history, List.foldlM_append]

/-- **The journal is a ring of slots**, over any history. -/
theorem history_represents (hL : 14 < L) (hL' : L ≤ 32768) [NeZero (slotCount L)]
    (h : List (Op Call)) :
    ∃ j, history h (reset (erased L)) = some j ∧ Represents j (run (slotCount L) h) := by
  induction h using List.reverseRecOn with
  | nil => exact ⟨_, rfl, represents_erased hL⟩
  | append_singleton h op ih =>
    obtain ⟨j, hj, hrep⟩ := ih
    rw [history_append_singleton, hj, Option.bind_some]
    cases op with
    | write call =>
      rw [run_append_write]
      exact represents_update hL hL' call hrep
    | reset =>
      rw [run_append_reset]
      exact ⟨_, rfl, hrep.reset⟩

/-! ### One power-up -/

@[simp] theorem ofBytes_bytesOf_some (call : Call) :
    Record.ofBytes (bytesOf (some call)) = call.record :=
  Record.ofBytes_toBytes call.record

/-- A list of slots of which exactly the first `k` are written, as the reader sees it. -/
theorem takeWhile_map_range {f : ℕ → Record} {k n : ℕ} (hk : k ≤ n)
    (hwritten : ∀ s < k, (f s).id ≠ -1) (hend : k < n → (f k).id = -1) :
    ((List.range n).map f).takeWhile (·.id ≠ -1) = (List.range k).map f := by
  obtain ⟨d, rfl⟩ := Nat.exists_eq_add_of_le hk
  rw [List.range_add, List.map_append, List.takeWhile_append_of_pos]
  · cases d with
    | zero => simp
    | succ d => simp [List.range_succ_eq_map, hend (by omega)]
  · intro record hrecord
    obtain ⟨s, hs, rfl⟩ := List.mem_map.1 hrecord
    exact decide_eq_true (hwritten s (List.mem_range.1 hs))

/-- The record that stands in a slot of the journal that was written. -/
theorem Represents.recordAt_eq {j : State L} {ring : SlotRing (slotCount L) Call}
    (hrep : Represents j ring) {s : ℕ} (hs : s < slotCount L) {call : Call}
    (hcall : ring.slots s = some call) : recordAt j.eeprom s = call.record := by
  rw [recordAt, hrep.slotBytes_eq s hs, hcall, ofBytes_bytesOf_some]

/-- A slot that was never written ends the listing. -/
theorem Represents.recordAt_id {j : State L} {ring : SlotRing (slotCount L) Call}
    (hrep : Represents j ring) {s : ℕ} (hs : s < slotCount L) (hnone : ring.slots s = none) :
    (recordAt j.eeprom s).id = -1 := by
  rw [recordAt, hrep.slotBytes_eq s hs, hnone]
  exact ofBytes_erasedBytes_id

/-- **The round trip within one power-up.** After `n` calls with numbers other than `-1` on an
erased EEPROM, all of which write inside the memory, `readJournal` lists the first `min n S` slots;
the record of the `i`-th call, if it is one of the last `S`, stands in slot `i % S`; and these are
the last records written. -/
theorem journal_roundTrip (hL : 14 < L) (hL' : L ≤ 32768) (calls : List Call)
    (hid : ∀ call ∈ calls, call.scheduleCounter ≠ -1) :
    ∃ j records, history (calls.map .write) (reset (erased L)) = some j ∧
      readJournal j.eeprom = some records ∧
      records = (List.range (min calls.length (slotCount L))).map (recordAt j.eeprom) ∧
      (∀ i, ∀ hi : i < calls.length, calls.length ≤ i + slotCount L →
        recordAt j.eeprom (i % slotCount L) = calls[i].record) ∧
      records.Perm ((calls.map Call.record).drop (calls.length - slotCount L)) := by
  have := neZero_slotCount hL
  have hpos := Nat.pos_of_neZero (slotCount L)
  obtain ⟨j, hj, hrep⟩ := history_represents hL hL' (calls.map .write)
  obtain ⟨hheld, hnone⟩ := slots_run_of_fullRounds (fullRounds_writes (S := slotCount L) calls)
  rw [values_writes] at hheld hnone
  have hslot : ∀ i, ∀ hi : i < calls.length, calls.length ≤ i + slotCount L →
      recordAt j.eeprom (i % slotCount L) = calls[i].record := fun i hi hround ↦
    hrep.recordAt_eq (Nat.mod_lt i hpos)
      ((hheld i hi hround).trans (List.getElem?_eq_getElem hi))
  set records := (List.range (min calls.length (slotCount L))).map (recordAt j.eeprom)
    with hrecords
  have hread : readJournal j.eeprom = some records := by
    rw [readJournal_eq hL hL', hrecords, takeWhile_map_range (min_le_right _ _)]
    · intro s hs
      obtain ⟨i, hi, hround, rfl⟩ := exists_recent_of_lt hs
      rw [hslot i hi hround]
      exact hid _ (List.getElem_mem hi)
    · exact fun hlt ↦ hrep.recordAt_id hlt (hnone _ hlt (by omega))
  have hget : ∀ i < (calls.map Call.record).length,
      (calls.map Call.record).length ≤ i + slotCount L →
        records[i % slotCount L]? = (calls.map Call.record)[i]? := by
    intro i hi hround
    rw [List.length_map] at hi hround
    have hlt : i % slotCount L < min calls.length (slotCount L) :=
      lt_min ((Nat.mod_le i _).trans_lt hi) (Nat.mod_lt i hpos)
    rw [List.getElem?_map, List.getElem?_range hlt, Option.map_some, hslot i hi hround,
      List.getElem?_map, List.getElem?_eq_getElem hi, Option.map_some]
  -- From the cursor round the slots hold the last calls in order, so the list is a rotation.
  have hrotate := rotate_eq_drop (by rw [hrecords]; simp) hget
  rw [List.length_map] at hrotate
  refine ⟨j, records, hj, hread, rfl, hslot, ?_⟩
  rw [← hrotate]
  exact (List.rotate_perm _ _).symm

/-- On 29 bytes there is room for two records. Of three calls the last one goes around and
overwrites the first: the listing starts with it, and the second one follows. -/
theorem journal_roundTrip_around :
    let calls : List Call := [⟨946684800, ⟨946699200, 946706400⟩, 0⟩,
      ⟨946706400, ⟨946720800, 946720920⟩, 1⟩, ⟨946720920, ⟨946724400, 946724520⟩, 2⟩]
    ∃ j records, history (calls.map .write) (reset (erased 29)) = some j ∧
      readJournal j.eeprom = some records ∧ recordAt j.eeprom 0 = calls[2].record ∧
      recordAt j.eeprom 1 = calls[1].record ∧ records.Perm ((calls.map Call.record).drop 1) := by
  obtain ⟨j, records, hj, hread, -, hslot, hperm⟩ :=
    journal_roundTrip (L := 29) (by decide) (by decide)
      [⟨946684800, ⟨946699200, 946706400⟩, 0⟩, ⟨946706400, ⟨946720800, 946720920⟩, 1⟩,
        ⟨946720920, ⟨946724400, 946724520⟩, 2⟩] (by decide)
  exact ⟨j, records, hj, hread, hslot 2 (by decide) (by decide), hslot 1 (by decide) (by decide),
    hperm⟩

/-! ### Resets -/

/-- The records that stand in slots which are not erased. -/
def heldRecords (m : Eeprom L) : List Record :=
  ((List.range (slotCount L)).filter fun s ↦ slotBytes m s ≠ erasedBytes).map (recordAt m)

/-- **What the journal keeps over resets.** After any history from an erased EEPROM, a slot holds
the record last written by a call whose number since the reset before it belongs to the slot. So
the last `S` records of the current power-up are there; and where every reset comes after full
rounds, the last `S` records of the whole history are there, and nothing is in the slots it has not
reached. -/
theorem journal_resets (hL : 14 < L) (hL' : L ≤ 32768) (h : List (Op Call)) :
    ∃ j, history h (reset (erased L)) = some j ∧
      (∀ s < slotCount L, slotBytes j.eeprom s = bytesOf (lastWrite (slotCount L) h s)) ∧
      (∀ (h₁ : List (Op Call)) (calls : List Call), h = h₁ ++ .reset :: calls.map .write →
        ∀ i < calls.length, calls.length ≤ i + slotCount L →
          slotBytes j.eeprom (i % slotCount L) = bytesOf calls[i]?) ∧
      (FullRounds (slotCount L) h →
        (∀ i < (values h).length, (values h).length ≤ i + slotCount L →
          slotBytes j.eeprom (i % slotCount L) = bytesOf (values h)[i]?) ∧
        ∀ s < slotCount L, (values h).length ≤ s → slotBytes j.eeprom s = erasedBytes) := by
  have := neZero_slotCount hL
  have hmod := fun i ↦ Nat.mod_lt i (Nat.pos_of_neZero (slotCount L))
  obtain ⟨j, hj, hrep⟩ := history_represents hL hL' h
  refine ⟨j, hj, fun s hs ↦ ?_, ?_, fun hfull ↦ ?_⟩
  · rw [hrep.slotBytes_eq s hs, slots_run]
  · rintro h₁ calls rfl i hi hround
    rw [hrep.slotBytes_eq _ (hmod i), ← List.singleton_append, ← List.append_assoc]
    have hheld := slots_run_append_writes (S := slotCount L) (h₁ ++ [.reset]) calls i hi hround
    rw [sinceReset_append_reset, Nat.zero_add] at hheld
    rw [hheld]
  · obtain ⟨hheld, hnone⟩ := slots_run_of_fullRounds hfull
    refine ⟨fun i hi hround ↦ ?_, fun s hs hle ↦ ?_⟩
    · rw [hrep.slotBytes_eq _ (hmod i), hheld i hi hround]
    · rw [hrep.slotBytes_eq s hs, hnone s hs hle]
      rfl

/-- A call, a reset and another call: the second record is written over the first one, and that is
all the EEPROM holds. -/
theorem reset_overwrites :
    ¬ ∀ h : List (Op Call), (∀ call ∈ values h, call.scheduleCounter ≠ -1) →
      ∃ j, history h (reset (erased 1024)) = some j ∧
        (heldRecords j.eeprom).Perm
          (((values h).map Call.record).drop ((values h).length - 73)) := by
  intro hclaim
  obtain ⟨j, hj, hperm⟩ := hclaim
    [.write ⟨946684800, ⟨946699200, 946706400⟩, 0⟩, .reset,
      .write ⟨946684900, ⟨946699200, 946706400⟩, 0⟩] (by decide)
  obtain ⟨j', hj', hrep⟩ := history_represents (L := 1024) (by decide) (by decide)
    [.write ⟨946684800, ⟨946699200, 946706400⟩, 0⟩, .reset,
      .write ⟨946684900, ⟨946699200, 946706400⟩, 0⟩]
  rw [hj, Option.some_inj] at hj'
  subst hj'
  -- every slot but the first is still erased
  have hheld : (heldRecords j.eeprom).length ≤ 1 := by
    have hfilter : ((List.range (slotCount 1024)).filter fun s ↦
        slotBytes j.eeprom s ≠ erasedBytes) = (List.range (slotCount 1024)).filter (· = 0) := by
      refine List.filter_congr fun s hs ↦ ?_
      rw [hrep.slotBytes_eq s (List.mem_range.1 hs), slots_run]
      by_cases hs0 : s = 0
      · subst hs0
        decide
      · have hne : ¬ 0 = s := fun h ↦ hs0 h.symm
        simp [lastWrite, writes, bytesOf, hs0, hne]
    rw [heldRecords, hfilter, List.length_map]
    decide
  rw [hperm.length_eq] at hheld
  exact absurd hheld (by decide)

/-- On the chip's 1024 bytes, after such a history the first slot holds the second record. -/
theorem journal_resets_chip :
    ∃ j, history [.write ⟨946684800, ⟨946699200, 946706400⟩, 0⟩, .reset,
        .write ⟨946684900, ⟨946699200, 946706400⟩, 0⟩] (reset (erased 1024)) = some j ∧
      slotBytes j.eeprom 0 = bytesOf (some ⟨946684900, ⟨946699200, 946706400⟩, 0⟩) := by
  obtain ⟨j, hj, hslots, -⟩ := journal_resets (L := 1024) (by decide) (by decide)
    [.write ⟨946684800, ⟨946699200, 946706400⟩, 0⟩, .reset,
      .write ⟨946684900, ⟨946699200, 946706400⟩, 0⟩]
  exact ⟨j, hj, hslots 0 (by decide)⟩

end Journal
