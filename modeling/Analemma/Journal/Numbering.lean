import Analemma.Journal.History

/-!
# The numbers of the records

`analemma_1`, `analemma_debug` and `analemma_stress` number their records: the record of the `i`-th
call of a power-up gets the number `i`, as an `int` of 16 bits. The end marker is a number too,
`-1`, and the counter comes to it with the call 65535 and every 65536 calls after that. The record
it numbers ends the listing until it is overwritten, which takes another round of the ring.

So the newest record is listed exactly when no record with this number stands in a slot up to its
own (`newest_mem_iff`).

The counter is a global and starts from zero at every power-up, while the slots may hold anything
from before. So there are two kinds of statements: over any EEPROM (`Numbered.updateAll_spec`), by
way of a history that would have left what it holds (`earlier`), and on an erased one, where it is
known of every slot which call has written it (`recordAt_round`).
-/

namespace Journal

open SlotRing Schedule

variable {L : ℕ}

/-- The journal, with the counter of the sketch. -/
structure Numbered (L : ℕ) extends State L where
  scheduleCounter : Int16

namespace Numbered

/-- The globals after power-up. -/
def powerUp (m : Eeprom L) : Numbered L := { reset m with scheduleCounter := 0 }

/-- `updateJournal`, with `record.id = scheduleCounter++`. -/
def updateJournal (now : UInt32) (nextEvent : HatchEvent) (j : Numbered L) :
    Option (Numbered L) := do
  let state ← Journal.updateJournal ⟨now, nextEvent, j.scheduleCounter⟩ j.toState
  some { state with scheduleCounter := j.scheduleCounter + 1 }

/-- Calls of `updateJournal`, each with the time and the next event it finds. -/
def updateAll (inputs : List (UInt32 × HatchEvent)) (j : Numbered L) : Option (Numbered L) :=
  inputs.foldlM (fun j x ↦ j.updateJournal x.1 x.2) j

end Numbered

/-! ### The numbers -/

/-- The calls with the numbers they get. -/
def numberedCalls (inputs : List (UInt32 × HatchEvent)) : List Call :=
  inputs.mapIdx fun i x ↦ ⟨x.1, x.2, .ofNat i⟩

theorem length_numberedCalls (inputs : List (UInt32 × HatchEvent)) :
    (numberedCalls inputs).length = inputs.length :=
  List.length_mapIdx

/-- **The numbered journal is the journal** with the counter beside it. -/
theorem Numbered.updateAll_eq (inputs : List (UInt32 × HatchEvent)) (m : Eeprom L) :
    updateAll inputs (powerUp m) =
      (history ((numberedCalls inputs).map .write) (reset m)).map fun j ↦
        { j with scheduleCounter := .ofNat inputs.length } := by
  induction inputs using List.reverseRecOn with
  | nil => rfl
  | append_singleton inputs x ih =>
    have hcalls : (numberedCalls (inputs ++ [x])).map Op.write =
        (numberedCalls inputs).map .write ++ [.write ⟨x.1, x.2, .ofNat inputs.length⟩] := by
      simp [numberedCalls]
    have hlast : updateAll (inputs ++ [x]) (powerUp m) =
        (updateAll inputs (powerUp m)).bind (·.updateJournal x.1 x.2) := by
      simp [updateAll, List.foldlM_append]
    rw [hlast, ih, hcalls, history_append_singleton]
    cases history ((numberedCalls inputs).map .write) (reset m) with
    | none => rfl
    | some j =>
      rw [Option.map_some, Option.bind_some, Option.bind_some, List.length_append,
        List.length_singleton, Int16.ofNat_add]
      simp only [Numbered.updateJournal, step]
      cases Journal.updateJournal ⟨x.1, x.2, .ofNat inputs.length⟩ j <;> rfl

/-! ### Over whatever the EEPROM holds -/

/-- The call whose record a slot reads as. -/
def callAt (m : Eeprom L) (s : ℕ) : Call where
  now := (recordAt m s).ts
  nextEvent := ⟨(recordAt m s).openTime, (recordAt m s).closeTime⟩
  scheduleCounter := (recordAt m s).id

/-- A history that leaves in the slots what an EEPROM holds, up to the present power-up. -/
def earlier (m : Eeprom L) : List (Op Call) :=
  ((List.range (slotCount L)).map (callAt m)).map .write ++ [.reset]

theorem sinceReset_earlier (m : Eeprom L) : sinceReset (earlier m) = 0 :=
  sinceReset_append_reset _

/-- **Any EEPROM is what some history leaves.** -/
theorem represents_earlier (hL : 14 < L) [NeZero (slotCount L)] (m : Eeprom L) :
    Represents (reset m) (run (slotCount L) (earlier m)) where
  eepromAddr_eq := by
    rw [earlier, run_append_reset]
    rfl
  slotBytes_eq s hs := by
    have hheld := (slots_run_of_fullRounds
      (fullRounds_writes (S := slotCount L) ((List.range (slotCount L)).map (callAt m)))).1 s
    rw [values_writes, List.length_map, List.length_range, Nat.mod_eq_of_lt hs, List.getElem?_map,
      List.getElem?_range hs] at hheld
    rw [earlier, run_append_reset, slots_reset, hheld hs (by omega)]
    have hlen : (slotBytes m s).length = sizeofRecord := by
      have hfits := (lt_slotCount_iff hL).1 hs
      rw [slotBytes, List.length_take, List.length_drop, Vector.length_toList]
      unfold sizeofRecord
      omega
    exact (Record.toBytes_ofBytes hlen).symm

/-- What a history makes of a journal that stands for a ring. -/
theorem represents_history (hL : 14 < L) (hL' : L ≤ 32768) [NeZero (slotCount L)]
    {j : State L} {h₀ : List (Op Call)} (hrep : Represents j (run (slotCount L) h₀))
    (h : List (Op Call)) :
    ∃ j', history h j = some j' ∧ Represents j' (run (slotCount L) (h₀ ++ h)) := by
  induction h using List.reverseRecOn with
  | nil => exact ⟨j, rfl, by rwa [List.append_nil]⟩
  | append_singleton h op ih =>
    obtain ⟨j', hj', hrep'⟩ := ih
    rw [history_append_singleton, hj', Option.bind_some, ← List.append_assoc]
    cases op with
    | write call =>
      rw [run_append_write]
      exact represents_update hL hL' call hrep'
    | reset =>
      rw [run_append_reset]
      exact ⟨_, rfl, hrep'.reset⟩

/-- **A power-up writes inside the memory**, whatever stands there, and its last records that fit
stand in the slots of their numbers. -/
theorem Numbered.updateAll_spec (hL : 14 < L) (hL' : L ≤ 32768)
    (inputs : List (UInt32 × HatchEvent)) (m : Eeprom L) :
    ∃ j, updateAll inputs (powerUp m) = some j ∧
      ∀ i, ∀ hi : i < inputs.length, inputs.length ≤ i + slotCount L →
        recordAt j.eeprom (i % slotCount L) =
          (Call.mk inputs[i].1 inputs[i].2 (.ofNat i)).record := by
  have := neZero_slotCount hL
  obtain ⟨j, hj, hrep⟩ :=
    represents_history hL hL' (represents_earlier hL m) ((numberedCalls inputs).map .write)
  refine ⟨{ j with scheduleCounter := .ofNat inputs.length }, ?_, fun i hi hround ↦ ?_⟩
  · rw [updateAll_eq, hj, Option.map_some]
  · have hheld := slots_run_append_writes (S := slotCount L) (earlier m) (numberedCalls inputs) i
      (by rwa [length_numberedCalls]) (by rwa [length_numberedCalls])
    rw [sinceReset_earlier, Nat.zero_add] at hheld
    refine hrep.recordAt_eq (Nat.mod_lt i (Nat.pos_of_neZero _)) (hheld.trans ?_)
    rw [numberedCalls, List.getElem?_mapIdx, List.getElem?_eq_getElem hi, Option.map_some]

/-- Numbers are the same when the calls are a multiple of 65536 apart. -/
theorem ofNat_eq_ofNat_iff {i k : ℕ} : Int16.ofNat i = .ofNat k ↔ i % 65536 = k % 65536 := by
  rw [← Int16.toBitVec_inj, ← BitVec.toNat_inj]
  exact Iff.rfl

/-- The numbers that are the end marker. -/
theorem ofNat_eq_neg_one_iff {i : ℕ} : Int16.ofNat i = -1 ↔ i % 65536 = 65535 :=
  ofNat_eq_ofNat_iff (k := 65535)

/-- Up to the slot of the newest record, the slots hold the records of the same round. -/
theorem recordAt_round (hL : 14 < L) (hL' : L ≤ 32768) (inputs : List (UInt32 × HatchEvent))
    (x : UInt32 × HatchEvent) :
    ∃ j, Numbered.updateAll (inputs ++ [x]) (.powerUp (erased L)) = some j ∧
      recordAt j.eeprom (inputs.length % slotCount L) =
        (Call.mk x.1 x.2 (.ofNat inputs.length)).record ∧
      ∀ s ≤ inputs.length % slotCount L, (recordAt j.eeprom s).id =
        .ofNat (inputs.length - (inputs.length % slotCount L - s)) := by
  have := neZero_slotCount hL
  set S := slotCount L with hS
  set calls := numberedCalls (inputs ++ [x]) with hcalls
  have hmod : inputs.length % S < S := Nat.mod_lt _ (Nat.pos_of_neZero S)
  have hdiv := Nat.div_add_mod inputs.length S
  have hlen : calls.length = inputs.length + 1 := by
    rw [hcalls, length_numberedCalls, List.length_append, List.length_singleton]
  obtain ⟨j, hj, hrep⟩ := history_represents hL hL' (calls.map .write)
  obtain ⟨hheld, -⟩ := slots_run_of_fullRounds (fullRounds_writes (S := S) calls)
  rw [values_writes] at hheld
  -- the record of the same round in the slot `s`
  have hround : ∀ s ≤ inputs.length % S,
      ∀ hi : inputs.length - (inputs.length % S - s) < calls.length,
        recordAt j.eeprom s = calls[inputs.length - (inputs.length % S - s)].record := by
    intro s hs hi
    have hslot : (inputs.length - (inputs.length % S - s)) % S = s := by
      have hsum : inputs.length - (inputs.length % S - s) = S * (inputs.length / S) + s := by omega
      rw [hsum, Nat.mul_add_mod, Nat.mod_eq_of_lt (by omega)]
    have h := hheld (inputs.length - (inputs.length % S - s)) hi (by omega)
    rw [hslot, List.getElem?_eq_getElem hi] at h
    exact hrep.recordAt_eq (by omega) h
  refine ⟨{ j with scheduleCounter := .ofNat (inputs ++ [x]).length }, ?_, ?_, fun s hs ↦ ?_⟩
  · rw [Numbered.updateAll_eq, hj, Option.map_some]
  · rw [hround _ le_rfl (by omega)]
    simp [hcalls, numberedCalls]
  · rw [hround s hs (by omega)]
    simp only [hcalls, numberedCalls, List.getElem_mapIdx, Call.record]

/-- **Whether the newest record is listed.** After `n` calls on an erased EEPROM, the last record is
among those that `readJournal` lists exactly when the counter has not come round yet, or the record
it has numbered `-1` last does not stand before the last one in the same round of the ring. -/
theorem newest_mem_iff (hL : 14 < L) (hL' : L ≤ 32768) (inputs : List (UInt32 × HatchEvent))
    (now : UInt32) (nextEvent : HatchEvent) :
    ∃ j records,
      Numbered.updateAll (inputs ++ [(now, nextEvent)]) (.powerUp (erased L)) = some j ∧
        readJournal j.eeprom = some records ∧
        ((Call.mk now nextEvent (.ofNat inputs.length)).record ∈ records ↔
          inputs.length + 1 < 65536 ∨
            inputs.length % slotCount L < (inputs.length + 1) % 65536) := by
  obtain ⟨j, hj, hnewest, hids⟩ := recordAt_round hL hL' inputs (now, nextEvent)
  have hread := readJournal_eq hL hL' j.eeprom
  refine ⟨j, _, hj, hread, ?_⟩
  have hS : slotCount L ≤ 65536 := by
    unfold slotCount sizeofRecord
    omega
  have hmod : inputs.length % slotCount L < slotCount L :=
    Nat.mod_lt _ ((lt_slotCount_iff hL).2 (by omega))
  have hle := Nat.mod_le inputs.length (slotCount L)
  generalize inputs.length % slotCount L = r at hmod hle hnewest hids ⊢
  have hmem : (Call.mk now nextEvent (.ofNat inputs.length)).record ∈
      ((List.range (slotCount L)).map (recordAt j.eeprom)).takeWhile (·.id ≠ -1) ↔
        ∃ s, listedAt j.eeprom s = some (Call.mk now nextEvent (.ofNat inputs.length)).record := by
    simp only [listedAt, hread, Option.bind_some, List.mem_iff_getElem?]
  rw [hmem]
  constructor
  · rintro ⟨s, hlisted⟩
    obtain ⟨-, hids', heq⟩ := (listedAt_eq_some_iff hL hL').1 hlisted
    have hnumber : (recordAt j.eeprom s).id = .ofNat inputs.length := congrArg Record.id heq
    -- an earlier slot of the round has another number
    have hsr : r ≤ s := by
      by_contra hlt
      rw [hids s (by omega), ofNat_eq_ofNat_iff] at hnumber
      omega
    by_contra hhidden
    have hmarker := hids' (r - (inputs.length + 1) % 65536) (by omega)
    rw [hids _ (Nat.sub_le _ _), Ne, ofNat_eq_neg_one_iff] at hmarker
    omega
  · intro hclear
    refine ⟨r, (listedAt_eq_some_iff hL hL').2 ⟨hmod, fun s hs ↦ ?_, hnewest⟩⟩
    rw [hids s hs, Ne, ofNat_eq_neg_one_iff]
    omega

/-- **No record is taken for the end of the journal**, on the chip's 1024 bytes: after `n` calls the
most recent record is listed exactly when `n < 65536` or `(n - 1) % 73 < n % 65536`. -/
theorem newest_listed_iff (inputs : List (UInt32 × HatchEvent)) (now : UInt32)
    (nextEvent : HatchEvent) :
    ∃ j records,
      Numbered.updateAll (inputs ++ [(now, nextEvent)]) (.powerUp (erased 1024)) = some j ∧
        readJournal j.eeprom = some records ∧
        (({ ts := now
            openTime := nextEvent.openTime
            closeTime := nextEvent.closeTime
            id := .ofNat inputs.length } : Record) ∈ records ↔
          inputs.length + 1 < 65536 ∨ inputs.length % 73 < (inputs.length + 1) % 65536) :=
  newest_mem_iff (by decide) (by decide) inputs now nextEvent

/-- The record of the call 65535, in slot 54, is not listed. -/
theorem newest_hidden :
    ¬ ∀ (inputs : List (UInt32 × HatchEvent)) (now : UInt32) (nextEvent : HatchEvent),
      ∃ j records,
        Numbered.updateAll (inputs ++ [(now, nextEvent)]) (.powerUp (erased 1024)) = some j ∧
          readJournal j.eeprom = some records ∧
          ({ ts := now
             openTime := nextEvent.openTime
             closeTime := nextEvent.closeTime
             id := .ofNat inputs.length } : Record) ∈ records := by
  intro hclaim
  obtain ⟨j, records, hj, hread, hmem⟩ :=
    hclaim (List.replicate 65535 (946684800, .empty)) 946684800 .empty
  obtain ⟨j', records', hj', hread', hiff⟩ := newest_mem_iff (L := 1024) (by decide) (by decide)
    (List.replicate 65535 (946684800, .empty)) 946684800 .empty
  rw [hj, Option.some_inj] at hj'
  subst hj'
  rw [hread, Option.some_inj] at hread'
  subst hread'
  have hlisted := hiff.1 hmem
  rw [List.length_replicate] at hlisted
  exact absurd hlisted (by decide)

end Journal
