import TimeSwitch.Library.Gregorian

/-! # Timestamps

`timestamp.h`: the daylight saving rule of the EU, the instant of a wall time, and the calendar day
that the time switches share.  `time_t` is `uint32_t` and counts the seconds since 2000.

`localtime_r` and `mk_gmtime` of avr-libc are parameters (`TimeLib`). -/

namespace TimeSwitch

/-- `struct tm` -/
structure Tm where
  sec : ℤ
  min : ℤ
  hour : ℤ
  mday : ℤ
  wday : ℤ
  mon : ℤ
  year : ℤ
  yday : ℤ
  isdst : ℤ
deriving DecidableEq, Repr

/-- `localtime_r` and `mk_gmtime` -/
structure TimeLib where
  localtime : UInt32 → Tm
  mkGmtime : Tm → UInt32

/-- `eu_dst` -/
def euDst (timer : UInt32) : UInt32 :=
  let t := if (194 : UInt8) ≤ (timer >>> 24).toUInt8 then timer - 3029443200 else timer
  let t := (t + 655513200) / 604800 * 28
  if (t % 1461).toUInt16 < 856 then 3600 else 0

/-- `UTC_OFFSET` -/
def utcOffset : UInt32 := 3600

/-- `calculateTimestamp`; it also stores hour and minute in its argument. -/
def calculateTimestamp (L : TimeLib) (tm : Tm) (hour min : ℤ) : UInt32 × Tm :=
  let tm := { tm with hour := hour, min := min }
  let retVal := L.mkGmtime tm - utcOffset
  (retVal - euDst retVal, tm)

/-- The static variables `tm` and `_nextMidnight`. -/
structure Clock where
  tm : Tm
  nextMidnight : UInt32
deriving DecidableEq, Repr

def Clock.init : Clock := ⟨⟨0, 0, 0, 0, 0, 0, 0, 0, 0⟩, 0⟩

/-- `getStructTM` -/
def getStructTM (L : TimeLib) (c : Clock) (now : UInt32) : Clock :=
  if c.nextMidnight ≤ now then
    let r := calculateTimestamp L { L.localtime now with sec := 0 } 24 0
    ⟨r.2, r.1⟩
  else c

/-- `getMidnight` -/
def getMidnight (c : Clock) : UInt32 := c.nextMidnight

/-! ### avr-libc -/

/-- The day 2000-01-01, on which the time begins. -/
def epochDay : ℕ := Gregorian.newYear 2000

/-- `gmtime_r` -/
def gmtime (t : UInt32) : Tm :=
  let n := t.toNat / 86400 + epochDay
  let y := Gregorian.yearOf n
  let k := n - Gregorian.newYear y
  { sec := t.toNat % 60, min := t.toNat / 60 % 60, hour := t.toNat / 3600 % 24,
    mday := Gregorian.dayOf n, wday := Gregorian.weekday n, mon := Gregorian.monthOf y k,
    year := y - 1900, yday := k, isdst := 0 }

/-- `mk_gmtime` -/
def mkGmtime (tm : Tm) : UInt32 :=
  let n := Gregorian.dayNumber (tm.year + 1900).toNat tm.mon.toNat tm.mday.toNat
  UInt32.ofInt ((n - epochDay) * 86400 + tm.hour * 3600 + tm.min * 60 + tm.sec)

/-- avr-libc set up with `UTC_OFFSET` and `eu_dst`. -/
def euTime : TimeLib where
  localtime t := { gmtime (t + utcOffset + euDst t) with isdst := (euDst t).toNat }
  mkGmtime := mkGmtime

end TimeSwitch
