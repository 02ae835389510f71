import Analemma.Machine.Basic

/-!
# The control and the status register

The chip keeps the enable bits of its alarms in a control register and their flags in a status
register, and the library changes them all in one way: it reads the register, changes the byte, and
writes it back (`Modify`). These are two transactions on the bus, and the clock goes on between
them.

Nothing but the library changes the control register. Into the status register the chip raises the
flags of the alarms, and a flag can only be cleared from outside: a zero that is written clears it,
a one leaves it as it is. So what is written back undoes what the chip has raised since the byte was
read, wherever the library meant to leave the bit alone, and this is the only way in which the two
transactions differ from one (`writeBack_eq_effect_iff`).

`Modify` is the family: a register, the bits that are kept and the bits that are set. Each function
of the library that changes one of the two registers is an instance under its own name, with the
masks of the source, and what is proved of `Modify` holds of all of them.

* `Modify.effect` is the change as a single transaction, which is what the statement machine
  executes. It is the measure for the two transactions, and no definition of the source.
* `Modify.Keeps` is decidable from the masks. Of the library's functions, `enable32kHz` and the two
  that clear a flag keep the bit of an alarm in the status register.

The chip itself is not code of the repository. `Chip.write` says what the register does with a byte,
as far as the library relies on it.
-/

namespace Machine

open DS3231

/-- The bit `i` of a byte. -/
def bit (v : UInt8) (i : ℕ) : Bool := v.toNat.testBit i

/-- A bit of a conjunction, as the masks of the library are built. -/
@[simp] theorem bit_and (v w : UInt8) (i : ℕ) : bit (v &&& w) i = (bit v i && bit w i) := by
  rw [bit, UInt8.toNat_and, Nat.testBit_and]
  rfl

@[simp] theorem bit_or (v w : UInt8) (i : ℕ) : bit (v ||| w) i = (bit v i || bit w i) := by
  rw [bit, UInt8.toNat_or, Nat.testBit_or]
  rfl

/-- The two alarms of the chip. -/
inductive Alarm where
  | one
  | two
deriving DecidableEq, Repr

instance {p : Alarm → Prop} [DecidablePred p] : Decidable (∀ a, p a) :=
  decidable_of_iff (p .one ∧ p .two)
    ⟨fun h a ↦ by cases a; exacts [h.1, h.2], fun h ↦ ⟨h _, h _⟩⟩

/-- The place of an alarm's bit in both registers: `A1IE` and `A1F` are bit 0, `A2IE` and `A2F` bit
1. -/
def Alarm.index : Alarm → ℕ
  | one => 0
  | two => 1

namespace Rtc

/-- The enable bit of an alarm. -/
def armed (r : Rtc) : Alarm → Bool
  | .one => r.armed1
  | .two => r.armed2

/-- The flag of an alarm. -/
def flag (r : Rtc) : Alarm → Option ℕ
  | .one => r.a1f
  | .two => r.a2f

/-- The registers of an alarm match the next second. -/
def Due (r : Rtc) : Alarm → Prop
  | .one => r.alarm1.Matches (r.time + 1)
  | .two => r.alarm2.Matches (r.time + 1)

instance (r : Rtc) : DecidablePred r.Due
  | .one => inferInstanceAs (Decidable (r.alarm1.Matches _))
  | .two => inferInstanceAs (Decidable (r.alarm2.Matches _))

end Rtc

/-! ### The registers -/

/-- The two registers that hold the bits of the alarms. -/
inductive Register where
  | control
  | status
deriving DecidableEq, Repr

/-- The clock with the rest of the two registers. -/
structure Chip where
  rtc : Rtc
  /-- The control register. Its lowest two bits are the enable bits of the clock instead. -/
  upperControl : UInt8
  /-- The status register: `OSF`, `EN32kHz` and `BSY`. Its lowest two bits are the flags of the
  clock instead. -/
  upperStatus : UInt8
deriving DecidableEq

namespace Chip

/-- The byte of a register. The bits of the alarms come from the clock, those that the chip does not
implement read as zero, and the others are kept as they are. -/
def read (c : Chip) : Register → UInt8
  | .control => c.upperControl &&& 0b11111100 ||| (if c.rtc.armed1 then 0b00000001 else 0) |||
      (if c.rtc.armed2 then 0b00000010 else 0)
  | .status => c.upperStatus &&& 0b10001100 ||| (if c.rtc.a1f.isSome then 0b00000001 else 0) |||
      (if c.rtc.a2f.isSome then 0b00000010 else 0)

/-- A byte is written. In the status register, `EN32kHz` is taken over, `BSY` is not, and `OSF` and
the flags can only be cleared. -/
def write (c : Chip) (v : UInt8) : Register → Chip
  | .control =>
    { c with
      rtc := { c.rtc with armed1 := bit v 0, armed2 := bit v 1 }
      upperControl := v }
  | .status =>
    { c with
      rtc := { c.rtc with
        a1f := if bit v 0 then c.rtc.a1f else none
        a2f := if bit v 1 then c.rtc.a2f else none }
      upperStatus := c.upperStatus &&& (v ||| 0b00000100) ||| v &&& 0b00001000 }

end Chip

/-! ### The library -/

/-- `value = readRegister8(reg)`, then `value &= keep` and `value |= set`, and then
`writeRegister8(reg, value)`. -/
structure Modify where
  reg : Register
  keep : UInt8
  set : UInt8
deriving DecidableEq, Repr

/-- The byte that is written back, from the byte that was read. -/
def Modify.value (m : Modify) (v : UInt8) : UInt8 := v &&& m.keep ||| m.set

/-- `setBattery`, which `begin` calls. Without `timeBattery` the oscillator stops on battery; with
it, the bit of the interrupt output is cleared as well. -/
def setBattery (timeBattery squareBattery : Bool) : Modify where
  reg := .control
  keep := (if squareBattery then 0b11111111 else 0b10111111) &&&
    (if timeBattery then 0b01111011 else 0b11111111)
  set := (if squareBattery then 0b01000000 else 0) ||| (if timeBattery then 0 else 0b10000000)

/-- `enableOutput`. -/
def enableOutput (enabled : Bool) : Modify where
  reg := .control
  keep := 0b11111011
  set := if enabled then 0 else 0b00000100

/-- `enable32kHz`. -/
def enable32kHz (enabled : Bool) : Modify where
  reg := .status
  keep := 0b11110111
  set := if enabled then 0b00001000 else 0

/-- `armAlarm1`. -/
def armAlarm1 (armed : Bool) : Modify where
  reg := .control
  keep := if armed then 0b11111111 else 0b11111110
  set := if armed then 0b00000001 else 0

/-- `armAlarm2`. -/
def armAlarm2 (armed : Bool) : Modify where
  reg := .control
  keep := if armed then 0b11111111 else 0b11111101
  set := if armed then 0b00000010 else 0

/-- `clearAlarm1`. -/
def clearAlarm1 : Modify where
  reg := .status
  keep := 0b11111110
  set := 0

/-- `clearAlarm2`. -/
def clearAlarm2 : Modify where
  reg := .status
  keep := 0b11111101
  set := 0

/-- `clearAlarm1` or `clearAlarm2`. -/
def clearAlarm : Alarm → Modify
  | .one => clearAlarm1
  | .two => clearAlarm2

namespace Modify

/-- What the two transactions would do as one: the byte is changed where it stands. -/
def effect (m : Modify) (c : Chip) : Chip := c.write (m.value (c.read m.reg)) m.reg

/-- The bit of an alarm is meant to stay as it is: the function changes the status register, and its
masks leave the bit alone. This is where writing back an old byte does harm. -/
def Keeps (m : Modify) (a : Alarm) : Prop :=
  m.reg = .status ∧ bit m.keep a.index = true ∧ bit m.set a.index = false

instance (m : Modify) : DecidablePred m.Keeps := fun _ ↦ inferInstanceAs (Decidable (_ ∧ _ ∧ _))

end Modify

/-! ### The bits of the alarms -/

/-- The two lowest bits of a byte whose other bits come from elsewhere. -/
theorem bit_low {u mask : UInt8} (hmask : ∀ a : Alarm, bit mask a.index = false) (b₀ b₁ : Bool)
    (a : Alarm) :
    bit (u &&& mask ||| (if b₀ then 0b00000001 else 0) ||| (if b₁ then 0b00000010 else 0)) a.index =
      match a with
      | .one => b₀
      | .two => b₁ := by
  rw [bit_or, bit_or, bit_and, hmask a, Bool.and_false, Bool.false_or]
  cases a <;> cases b₀ <;> cases b₁ <;> rfl

section Bits

variable (c : Chip) (a : Alarm)

/-- The enable bit of an alarm, as the library reads it. -/
theorem bit_read_control : bit (c.read .control) a.index = c.rtc.armed a := by
  rw [Chip.read, bit_low (by rintro ⟨⟩ <;> rfl)]
  cases a <;> rfl

/-- The flag of an alarm, as the library reads it. -/
theorem bit_read_status : bit (c.read .status) a.index = (c.rtc.flag a).isSome := by
  rw [Chip.read, bit_low (by rintro ⟨⟩ <;> rfl)]
  cases a <;> rfl

/-- A flag is cleared by a zero and by nothing else; a one that is written raises none. -/
theorem flag_write_status (v : UInt8) :
    (c.write v .status).rtc.flag a = if bit v a.index then c.rtc.flag a else none := by
  cases a <;> rfl

theorem bit_value (m : Modify) (v : UInt8) (i : ℕ) :
    bit (m.value v) i = (bit v i && bit m.keep i || bit m.set i) := by
  rw [Modify.value, bit_or, bit_and]

end Bits

/-- Of a byte that is written into the control register, the clock sees the enable bits. -/
theorem rtc_write_control_congr {c : Chip} {v w : UInt8}
    (h : ∀ a : Alarm, bit v a.index = bit w a.index) :
    (c.write v .control).rtc = (c.write w .control).rtc := by
  have hone : bit v 0 = bit w 0 := h .one
  have htwo : bit v 1 = bit w 1 := h .two
  simp only [Chip.write, hone, htwo]

/-- Two bytes written into the status register differ where one of them clears a flag that is up. -/
theorem rtc_write_status_eq_iff {c : Chip} {v w : UInt8} :
    (c.write v .status).rtc = (c.write w .status).rtc ↔
      ∀ a, c.rtc.flag a ≠ none → bit v a.index = bit w a.index := by
  constructor
  · intro h a hflag
    have heq := congrArg (Rtc.flag · a) h
    simp only [flag_write_status] at heq
    cases hv : bit v a.index <;> cases hw : bit w a.index <;> simp_all
  · intro h
    have hflag : ∀ a, (c.write v .status).rtc.flag a = (c.write w .status).rtc.flag a := by
      intro a
      rw [flag_write_status, flag_write_status]
      by_cases hnone : c.rtc.flag a = none
      · rw [hnone, ite_self, ite_self]
      · rw [h a hnone]
    have hone : (if bit v 0 then c.rtc.a1f else none) = if bit w 0 then c.rtc.a1f else none :=
      hflag .one
    have htwo : (if bit v 1 then c.rtc.a2f else none) = if bit w 1 then c.rtc.a2f else none :=
      hflag .two
    simp only [Chip.write, hone, htwo]

namespace Modify

variable {m : Modify} (c : Chip)

theorem rtc_effect_control (h : m.reg = .control) :
    (m.effect c).rtc = { c.rtc with
      armed1 := (bit m.set 0 || bit m.keep 0 && c.rtc.armed1)
      armed2 := (bit m.set 1 || bit m.keep 1 && c.rtc.armed2) } := by
  have hone : bit (c.read .control) 0 = c.rtc.armed1 := bit_read_control c .one
  have htwo : bit (c.read .control) 1 = c.rtc.armed2 := bit_read_control c .two
  rw [effect, h, Chip.write, bit_value, bit_value, hone, htwo, Bool.or_comm, Bool.and_comm,
    Bool.or_comm (_ && bit m.keep 1), Bool.and_comm _ (bit m.keep 1)]

/-- The effect on the flags: what is neither kept nor set goes down. -/
theorem rtc_effect_status (h : m.reg = .status) :
    (m.effect c).rtc = { c.rtc with
      a1f := if bit m.keep 0 || bit m.set 0 then c.rtc.a1f else none
      a2f := if bit m.keep 1 || bit m.set 1 then c.rtc.a2f else none } := by
  have hone : bit (c.read .status) 0 = c.rtc.a1f.isSome := bit_read_status c .one
  have htwo : bit (c.read .status) 1 = c.rtc.a2f.isSome := bit_read_status c .two
  rw [effect, h, Chip.write, bit_value, bit_value, hone, htwo]
  cases c.rtc.a1f <;> cases c.rtc.a2f <;> simp

end Modify

/-! ### Reading and writing back -/

namespace Chip

/-- A tick of the clock. -/
def tick (c : Chip) : Option Chip := c.rtc.tick.map fun r ↦ { c with rtc := r }

/-- The chip begins or ends to measure its temperature, and shows it in `BSY`. The bit is in the
byte that the library writes back, where it has no effect. -/
def conversion (c : Chip) : Chip := { c with upperStatus := c.upperStatus ^^^ 0b00000100 }

/-- What the chip does by itself, between two transactions of the library. -/
def Goes (c c' : Chip) : Prop := c.tick = some c' ∨ c' = c.conversion

/-- The chip goes on for a while, by any number of ticks and conversions. -/
def GoesOn : Chip → Chip → Prop := Relation.ReflTransGen Goes

end Chip

section Tick

variable {r r' : Rtc} (h : r.tick = some r') (a : Alarm)

include h

theorem armed_of_tick : r'.armed a = r.armed a := by
  obtain ⟨-, -, -, hone, htwo, -⟩ := Rtc.tick_eq_some h
  cases a with
  | one => exact hone
  | two => exact htwo

/-- A tick raises the flag of an alarm that is due, if it is not up already. -/
theorem flag_of_tick : r'.flag a = Rtc.raise (r.flag a) (r.Due a) (r.time + 1) := by
  obtain ⟨-, -, -, -, -, hone, htwo⟩ := Rtc.tick_eq_some h
  cases a with
  | one => exact hone
  | two => exact htwo

theorem flag_of_tick_of_isSome (hflag : (r.flag a).isSome) : r'.flag a = r.flag a := by
  obtain ⟨t, ht⟩ := Option.isSome_iff_exists.1 hflag
  rw [flag_of_tick h, ht, Rtc.raise, Option.some_or]

end Tick

/-- What the chip does by itself leaves the enable bits alone, and the flags that are up. -/
theorem Chip.GoesOn.spec {c c' : Chip} (h : c.GoesOn c') (a : Alarm) :
    c'.rtc.armed a = c.rtc.armed a ∧ ((c.rtc.flag a).isSome → c'.rtc.flag a = c.rtc.flag a) := by
  induction h with
  | refl => exact ⟨rfl, fun _ ↦ rfl⟩
  | tail _ hstep ih =>
    obtain htick | rfl := hstep
    · obtain ⟨r, hr, rfl⟩ := Option.map_eq_some_iff.1 htick
      refine ⟨(armed_of_tick hr a).trans ih.1, fun hflag ↦ ?_⟩
      have hsame := ih.2 hflag
      exact (flag_of_tick_of_isSome hr a (hsame ▸ hflag)).trans hsame
    · exact ih

section WriteBack

variable (m : Modify) {c c' : Chip} (h : c.GoesOn c')

include h

/-- A byte that is written back as if it had just been read: no flag has gone up that it would
clear. The enable bits have not changed at all, since only the library writes them. -/
theorem rtc_writeBack (hflags : ∀ a, m.Keeps a → c.rtc.flag a = none → c'.rtc.flag a = none) :
    (c'.write (m.value (c.read m.reg)) m.reg).rtc = (m.effect c').rtc := by
  unfold Modify.effect
  cases hreg : m.reg with
  | control =>
    refine rtc_write_control_congr fun a ↦ ?_
    rw [bit_value, bit_value, bit_read_control, bit_read_control, (h.spec a).1]
  | status =>
    refine rtc_write_status_eq_iff.2 fun a hup ↦ ?_
    rw [bit_value, bit_value, bit_read_status, bit_read_status]
    by_cases hnone : c.rtc.flag a = none
    · -- the flag went up in between, so its bit was not meant to stay
      cases hkeep : bit m.keep a.index with
      | false => rw [Bool.and_false, Bool.and_false]
      | true =>
        cases hset : bit m.set a.index with
        | false => exact absurd (hflags a ⟨hreg, hkeep, hset⟩ hnone) hup
        | true => rw [Bool.or_true, Bool.or_true]
    · rw [(h.spec a).2 (Option.isSome_iff_ne_none.2 hnone)]

/-- **When reading and writing back are as good as one transaction**: unless an alarm whose bit was
meant to stay as it is has raised its flag in between. -/
theorem writeBack_eq_effect_iff :
    (c'.write (m.value (c.read m.reg)) m.reg).rtc = (m.effect c').rtc ↔
      ∀ a, m.Keeps a → c.rtc.flag a = none → c'.rtc.flag a = none := by
  refine ⟨fun heq a ⟨hreg, hkeep, hset⟩ hnone ↦ ?_, rtc_writeBack m h⟩
  by_contra hup
  rw [Modify.effect, hreg] at heq
  have hbit := rtc_write_status_eq_iff.1 heq a hup
  rw [bit_value, bit_value, bit_read_status, bit_read_status, hkeep, hset, hnone,
    Option.isSome_iff_ne_none.2 hup] at hbit
  cases hbit

end WriteBack

/-- A second before ten on New Year's Day 2000, with alarm 2 set to ten. -/
def beforeTenChip : Chip where
  rtc := { clockAt 946720799 (by decide) with alarm2 := alarm2Registers 1 10 0 }
  upperControl := 0b00000100
  upperStatus := 0

/-- `clearAlarm1` clears the flag of alarm 2, which goes off in between. -/
theorem writeBack_eq_effect_iff_beforeTen :
    ∃ c', beforeTenChip.GoesOn c' ∧ (clearAlarm1.effect c').rtc.a2f = some 946720800 ∧
      (c'.write (clearAlarm1.value (beforeTenChip.read .status)) .status).rtc ≠
        (clearAlarm1.effect c').rtc := by
  have hflag : beforeTenChip.tick.map (fun c' ↦ (c'.rtc.a2f, (clearAlarm1.effect c').rtc.a2f)) =
      some (some 946720800, some 946720800) := by decide +kernel
  obtain ⟨c', htick, heq⟩ := Option.map_eq_some_iff.1 hflag
  obtain ⟨hup, heffect⟩ := Prod.ext_iff.1 heq
  have hgoes : beforeTenChip.GoesOn c' := .single (.inl htick)
  refine ⟨c', hgoes, heffect, fun hsame ↦ ?_⟩
  have hnone : c'.rtc.a2f = none :=
    (writeBack_eq_effect_iff clearAlarm1 hgoes).1 hsame .two (by decide) rfl
  rw [hnone] at hup
  cases hup

end Machine
