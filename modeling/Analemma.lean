import Analemma.Foundation.Blocks
import Analemma.Foundation.Gregorian
import Analemma.Foundation.CivilTime
import Analemma.Foundation.LeastChoice
import Analemma.Foundation.GreedyWindows
import Analemma.Foundation.LittleEndian
import Analemma.Foundation.SlotRing
import Analemma.Foundation.Interleaving
import Analemma.TimeLib.Basic
import Analemma.DS3231.Basic
import Analemma.Schedule.HatchEvent
import Analemma.Schedule.Constructors
import Analemma.Schedule.AlarmMeaning
import Analemma.Schedule.Occurrences
import Analemma.Schedule.TableOrder
import Analemma.Schedule.DailyRun
import Analemma.Journal.Eeprom
import Analemma.Journal.Basic
import Analemma.Journal.History
import Analemma.Journal.PowerLoss
import Analemma.Journal.Numbering
import Analemma.Factory.Bringup
import Analemma.Factory.Polling
import Analemma.Machine.Basic
import Analemma.Machine.Flags
import Analemma.Machine.Wakeup
import Analemma.Machine.Posture
import Analemma.Machine.Prompt
import Analemma.Machine.Rounds
import Analemma.Machine.Performance
import Analemma.Machine.Debug
import Analemma.Machine.EveryMinute
import Analemma.Machine.Exposure
import Analemma.Machine.Reversed
import Analemma.Foundation.Recording
import Analemma.Foundation.Simulation
import Analemma.Machine.Bus
import Analemma.Machine.InterruptPin
import Analemma.Machine.Logbook
import Analemma.Machine.SystemTime
import Analemma.DS3231.AlarmModes
import Analemma.DS3231.DateFormat
import Analemma.Factory.Display
import Analemma.Journal.Texts
import Analemma.Machine.Stress
import Analemma.DS3231.RegisterFile
import Analemma.Machine.Liveness
import Analemma.Machine.PowerCycles
