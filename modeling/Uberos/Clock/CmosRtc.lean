import Mathlib.Order.Monotone.Basic
/-!
# The CMOS clock

`get_time` and `get_date` of `drivers/x86/clock/CmosRtc.cpp`. A call reads
one register after another, and the clock goes on meanwhile: what it
returns may be a time that never was. How a register is selected, and the
mask of the non-maskable interrupt with it, is left out; that a register
is not read while the clock changes it is what the clock is relied on for.
-/

namespace Uberos

namespace CmosRtc

/-- What the registers hold at one moment. -/
abbrev Registers := UInt8 → UInt8

/-- `Clock::Time`. -/
structure Time where
  hours : UInt8
  minutes : UInt8
  seconds : UInt8
  deriving DecidableEq, Repr

/-- `Clock::Date`. -/
structure Date where
  year : UInt16
  month : UInt8
  date : UInt8
  deriving DecidableEq, Repr

/-- `parse_bcd`. -/
def parseBcd (x : UInt8) : UInt8 := (x &&& (0xf : UInt8)) + (x >>> 4) * 10

/-- What `get_time` makes of the registers that it has read. -/
def decodeTime (statusRegisterB hours minutes seconds : UInt8) : Time :=
  let is12Hr := statusRegisterB &&& ((1 : UInt8) <<< 1) == 0
  let isBcd := statusRegisterB &&& ((1 : UInt8) <<< 2) == 0
  let isPm := hours &&& 0x80 != 0
  if isBcd then
    let hours :=
      if is12Hr then
        let hours := parseBcd (hours &&& 0x7f)
        let hours := if hours = 12 then 0 else hours
        if isPm then hours + 12 else hours
      else parseBcd hours
    ⟨hours, parseBcd minutes, parseBcd seconds⟩
  else
    let hours :=
      if is12Hr then
        let hours := hours &&& 0x7f
        let hours := if hours = 12 then 0 else hours
        if isPm then hours + 12 else hours
      else hours
    ⟨hours, minutes, seconds⟩

/-- `get_time`, by what the registers hold as each is read. -/
def getTime (read : ℕ → Registers) : Time :=
  decodeTime (read 0 0x0b) (read 1 0x04) (read 2 0x02) (read 3 0x00)

/-- What `get_date` makes of the registers that it has read. -/
def decodeDate (statusRegisterB century year month date : UInt8) : Date :=
  let isBcd := statusRegisterB &&& ((1 : UInt8) <<< 2) == 0
  let century := if isBcd then parseBcd century else century
  let year := if isBcd then parseBcd year else year
  let month := if isBcd then parseBcd month else month
  let date := if isBcd then parseBcd date else date
  ⟨if 19 ≤ century ∧ century ≤ 21 then year.toUInt16 + century.toUInt16 * 100
    else year.toUInt16 + 2000, month - 1, date - 1⟩

/-- `get_date`, by what the registers hold as each is read. -/
def getDate (read : ℕ → Registers) : Date :=
  decodeDate (read 0 0x0b) (read 1 0x32) (read 2 0x09) (read 3 0x08) (read 4 0x07)

/-! ## What it is for -/

/-- The ways in which a clock counts. -/
structure Format where
  is12Hr : Bool
  isBcd : Bool
  deriving DecidableEq, Repr

namespace Format

variable (f : Format)

/-- The bits of status register B that tell. -/
def Of (statusRegisterB : UInt8) : Prop :=
  (statusRegisterB &&& ((1 : UInt8) <<< 1) == 0) = f.is12Hr ∧
    (statusRegisterB &&& ((1 : UInt8) <<< 2) == 0) = f.isBcd

/-- A number of two digits. -/
def number (n : ℕ) : UInt8 := .ofNat (if f.isBcd then n / 10 * 16 + n % 10 else n)

/-- An hour: of twelve, the last is the first, and those of the afternoon
are marked. -/
def hour (n : ℕ) : UInt8 :=
  if f.is12Hr then f.number ((n + 11) % 12 + 1) ||| if 12 ≤ n then 0x80 else 0 else f.number n

end Format

/-- The time of a day, at a second that is counted from a midnight. -/
def timeOf (second : ℕ) : Time :=
  ⟨.ofNat (second / 3600 % 24), .ofNat (second / 60 % 60), .ofNat (second % 60)⟩

/-- The clock shows a time. -/
structure ShowsTime (f : Format) (registers : Registers) (second : ℕ) : Prop where
  format : f.Of (registers 0x0b)
  hours : registers 0x04 = f.hour (second / 3600 % 24)
  minutes : registers 0x02 = f.number (second / 60 % 60)
  seconds : registers 0x00 = f.number (second % 60)

/-- A day of the calendar. -/
structure Day where
  year : ℕ
  month : ℕ
  date : ℕ
  month_mem : 1 ≤ month ∧ month ≤ 12
  date_mem : 1 ≤ date ∧ date ≤ 31
  deriving DecidableEq

namespace Day

/-- The Gregorian rule. -/
def isLeap (year : ℕ) : Bool := year % 4 == 0 && (year % 100 != 0 || year % 400 == 0)

/-- The last date of a month. -/
def last (year month : ℕ) : ℕ :=
  match month with
  | 2 => if isLeap year then 29 else 28
  | 4 | 6 | 9 | 11 => 30
  | _ => 31

theorem last_le (year month : ℕ) : last year month ≤ 31 := by
  unfold last
  split <;> (try split) <;> omega

/-- The day after. -/
def tomorrow (d : Day) : Day :=
  if h : d.date < last d.year d.month then
    { d with date := d.date + 1, date_mem := ⟨by omega, by have := last_le d.year d.month; omega⟩ }
  else if h : d.month < 12 then
    { d with
      month := d.month + 1
      date := 1
      month_mem := ⟨by omega, h⟩
      date_mem := by decide }
  else ⟨d.year + 1, 1, 1, by decide, by decide⟩

/-- What `get_date` is to return on it. -/
def toDate (d : Day) : Date := ⟨.ofNat d.year, .ofNat (d.month - 1), .ofNat (d.date - 1)⟩

end Day

/-- The clock shows a day. -/
structure ShowsDay (f : Format) (registers : Registers) (d : Day) : Prop where
  format : f.Of (registers 0x0b)
  century : registers 0x32 = f.number (d.year / 100)
  year : registers 0x09 = f.number (d.year % 100)
  month : registers 0x08 = f.number d.month
  date : registers 0x07 = f.number d.date

/-! ## What is read -/

variable {f : Format} {read : ℕ → Registers}

/-- **A number of two digits is read as it was written.** -/
theorem parse_number {n : ℕ} (h : n < 100) :
    (if f.isBcd then parseBcd (f.number n) else f.number n) = .ofNat n := by
  have hbcd : ∀ n < 100, parseBcd (.ofNat (n / 10 * 16 + n % 10)) = .ofNat n := by decide
  unfold Format.number
  cases f.isBcd with
  | true => exact hbcd n h
  | false => rfl

/-- Each hour of the day, of twelve. -/
theorem parse_hour (n : ℕ) (h : n < 24) :
    let hours := if f.isBcd then parseBcd (f.hour n &&& 0x7f) else f.hour n &&& 0x7f
    f.is12Hr → (if (f.hour n &&& 0x80 != 0) = true then (if hours = 12 then 0 else hours) + 12
      else if hours = 12 then 0 else hours) = .ofNat n := by
  have hours : ∀ isBcd : Bool, ∀ n < 24,
      let hour := (Format.mk true isBcd).hour n
      let hours := if isBcd then parseBcd (hour &&& 0x7f) else hour &&& 0x7f
      (if (hour &&& 0x80 != 0) = true then (if hours = 12 then 0 else hours) + 12
        else if hours = 12 then 0 else hours) = .ofNat n := by decide
  obtain ⟨is12Hr, isBcd⟩ := f
  intro _ h12Hr
  have h12Hr : is12Hr = true := h12Hr
  subst h12Hr
  exact hours isBcd n h

/-- **A time is read as it was written**, in each of the four ways. -/
theorem decode_time {statusRegisterB : UInt8} {hour minute second : ℕ}
    (hformat : f.Of statusRegisterB) (hhour : hour < 24) (hminute : minute < 60)
    (hsecond : second < 60) :
    decodeTime statusRegisterB (f.hour hour) (f.number minute) (f.number second) =
      ⟨.ofNat hour, .ofNat minute, .ofNat second⟩ := by
  obtain ⟨h12Hr, hbcd⟩ := hformat
  have hhours := parse_hour (f := f) hour hhour
  have hminutes := parse_number (f := f) (n := minute) (by omega)
  have hseconds := parse_number (f := f) (n := second) (by omega)
  have hplain := parse_number (f := f) (n := hour) (by omega)
  unfold decodeTime
  rw [h12Hr, hbcd]
  dsimp only
  cases hb : f.isBcd with
  | true =>
    rw [hb, if_pos rfl] at hminutes hseconds hplain hhours
    rw [if_pos rfl, hminutes, hseconds]
    cases h12 : f.is12Hr with
    | true => rw [if_pos rfl, hhours h12]
    | false =>
      rw [if_neg Bool.false_ne_true, Format.hour, h12, if_neg Bool.false_ne_true, hplain]
  | false =>
    rw [hb, if_neg Bool.false_ne_true] at hminutes hseconds hplain hhours
    rw [if_neg Bool.false_ne_true, hminutes, hseconds]
    cases h12 : f.is12Hr with
    | true => rw [if_pos rfl, hhours h12]
    | false =>
      rw [if_neg Bool.false_ne_true, Format.hour, h12, if_neg Bool.false_ne_true, hplain]

/-- **A day of the three centuries is read as it was written.** -/
theorem decode_date {statusRegisterB : UInt8} {century year month date : ℕ}
    (hformat : f.Of statusRegisterB) (hcentury : 19 ≤ century ∧ century ≤ 21) (hyear : year < 100)
    (hmonth : 1 ≤ month ∧ month ≤ 12) (hdate : 1 ≤ date ∧ date ≤ 31) :
    decodeDate statusRegisterB (f.number century) (f.number year) (f.number month)
      (f.number date) = ⟨.ofNat (century * 100 + year), .ofNat (month - 1), .ofNat (date - 1)⟩ := by
  obtain ⟨-, hbcd⟩ := hformat
  have hless : ∀ n < 32, 1 ≤ n → UInt8.ofNat n - 1 = .ofNat (n - 1) := by decide
  have hfull : ∀ c < 22, 19 ≤ c → (19 ≤ UInt8.ofNat c ∧ UInt8.ofNat c ≤ 21) ∧ ∀ y < 100,
      (UInt8.ofNat y).toUInt16 + (UInt8.ofNat c).toUInt16 * 100 = .ofNat (c * 100 + y) := by
    decide +kernel
  obtain ⟨hvalid, hsum⟩ := hfull century (by omega) hcentury.1
  unfold decodeDate
  rw [hbcd]
  dsimp only
  rw [parse_number (by omega), parse_number hyear, parse_number (by omega),
    parse_number (by omega), if_pos hvalid, hsum year hyear, hless month (by omega) hmonth.1,
    hless date (by omega) hdate.1]

theorem ofNat_eq_iff {m n : ℕ} (hm : m < 256) (hn : n < 256) :
    UInt8.ofNat m = .ofNat n ↔ m = n := by
  refine ⟨fun h => ?_, congrArg _⟩
  have hvalue := congrArg UInt8.toNat h
  rwa [UInt8.toNat_ofNat_of_lt' hm, UInt8.toNat_ofNat_of_lt' hn] at hvalue

theorem ofNat_eq_iff' {m n : ℕ} (hm : m < 65536) (hn : n < 65536) :
    UInt16.ofNat m = .ofNat n ↔ m = n := by
  refine ⟨fun h => ?_, congrArg _⟩
  have hvalue := congrArg UInt16.toNat h
  rwa [UInt16.toNat_ofNat_of_lt' hm, UInt16.toNat_ofNat_of_lt' hn] at hvalue

/-- What `get_time` returns. -/
theorem getTime_eq {second : ℕ → ℕ} (hshows : ∀ i, ShowsTime f (read i) (second i)) :
    getTime read = ⟨.ofNat (second 1 / 3600 % 24), .ofNat (second 2 / 60 % 60),
      .ofNat (second 3 % 60)⟩ := by
  rw [getTime, (hshows 1).hours, (hshows 2).minutes, (hshows 3).seconds]
  exact decode_time (hshows 0).format (Nat.mod_lt _ (by decide)) (Nat.mod_lt _ (by decide))
    (Nat.mod_lt _ (by decide))

namespace Day

variable {d : Day}

/-- The date changes from a day to the next. -/
theorem date_tomorrow_ne : d.tomorrow.date ≠ d.date := by
  have hlast : 28 ≤ last d.year d.month := by
    unfold last
    split <;> (try split) <;> omega
  unfold tomorrow
  split
  · exact Nat.succ_ne_self _
  · split
    · show 1 ≠ d.date
      omega
    · show 1 ≠ d.date
      omega

/-- The year is the same or the next. -/
theorem year_tomorrow : d.tomorrow.year = d.year ∨ d.tomorrow.year = d.year + 1 := by
  unfold tomorrow
  split
  · exact Or.inl rfl
  · split
    · exact Or.inl rfl
    · exact Or.inr rfl

end Day

/-- What `get_date` returns. -/
theorem getDate_eq {shown : ℕ → Day} (hshows : ∀ i, ShowsDay f (read i) (shown i))
    (hyears : ∀ i, 1900 ≤ (shown i).year ∧ (shown i).year < 2200) :
    getDate read = ⟨.ofNat ((shown 1).year / 100 * 100 + (shown 2).year % 100),
      .ofNat ((shown 3).month - 1), .ofNat ((shown 4).date - 1)⟩ := by
  have hcentury := hyears 1
  rw [getDate, (hshows 1).century, (hshows 2).year, (hshows 3).month, (hshows 4).date]
  exact decode_date (hshows 0).format (by omega) (Nat.mod_lt _ (by decide)) (shown 3).month_mem
    (shown 4).date_mem

/-! ## The result -/

/-- **The time that is read is one that the clock showed meanwhile, just
where no hour begins between the reading of the hours and the minutes, and
no minute between that of the minutes and the seconds**, in each of the
four ways of counting, if it is read within a minute. -/
theorem getTime_shown_iff {second : ℕ → ℕ} (hshows : ∀ i, ShowsTime f (read i) (second i))
    (hmono : Monotone second) (hminute : second 3 < second 1 + 60) :
    (∃ s, second 1 ≤ s ∧ s ≤ second 3 ∧ getTime read = timeOf s) ↔
      second 1 / 3600 = second 2 / 3600 ∧ second 2 / 60 = second 3 / 60 := by
  have hfirst : second 1 ≤ second 2 := hmono (by decide)
  have hthen : second 2 ≤ second 3 := hmono (by decide)
  have hsame : ∀ s, getTime read = timeOf s ↔ second 1 / 3600 % 24 = s / 3600 % 24 ∧
      second 2 / 60 % 60 = s / 60 % 60 ∧ second 3 % 60 = s % 60 := by
    intro s
    rw [getTime_eq hshows, timeOf, Time.mk.injEq, ofNat_eq_iff (by omega) (by omega),
      ofNat_eq_iff (by omega) (by omega), ofNat_eq_iff (by omega) (by omega)]
  constructor
  · rintro ⟨s, hle, hge, htime⟩
    obtain ⟨hhours, hminutes, hseconds⟩ := (hsame s).1 htime
    -- within a minute the seconds tell which second it is
    have hs : s = second 3 := by omega
    subst hs
    omega
  · rintro ⟨hhours, hminutes⟩
    refine ⟨second 3, hfirst.trans hthen, le_rfl, (hsame _).2 ⟨?_, ?_, rfl⟩⟩
    · omega
    · rw [hminutes]

/-- A status register B that tells. -/
def Format.statusRegisterB : Format → UInt8
  | ⟨true, true⟩ => 0
  | ⟨false, true⟩ => 0x02
  | ⟨true, false⟩ => 0x04
  | ⟨false, false⟩ => 0x06

theorem Format.of_statusRegisterB (f : Format) : f.Of f.statusRegisterB := by
  obtain ⟨is12Hr, isBcd⟩ := f
  revert is12Hr isBcd
  unfold Format.Of
  decide

/-- A clock that shows a time. -/
def registersAt (f : Format) (second : ℕ) (register : UInt8) : UInt8 :=
  match register.toNat with
  | 0x0b => f.statusRegisterB
  | 0x04 => f.hour (second / 3600 % 24)
  | 0x02 => f.number (second / 60 % 60)
  | 0x00 => f.number (second % 60)
  | _ => 0

theorem showsTime_registersAt (f : Format) (second : ℕ) :
    ShowsTime f (registersAt f second) second :=
  ⟨f.of_statusRegisterB, rfl, rfl, rfl⟩

/-- The hour before midnight is read, and then the minutes after it. -/
theorem getTime_shown_iff_midnight :
    ¬ ∃ s, 86399 ≤ s ∧ s ≤ 86400 ∧ getTime (fun i => registersAt ⟨true, true⟩
      (if i < 2 then 86399 else 86400)) = timeOf s := by
  have hmono : Monotone fun i => if i < 2 then 86399 else 86400 := by
    intro i j hle
    dsimp only
    split <;> split <;> omega
  rw [show (∃ s, 86399 ≤ s ∧ s ≤ 86400 ∧ _) ↔ _ from
    getTime_shown_iff (fun i => showsTime_registersAt ⟨true, true⟩ _) hmono (by decide)]
  decide

/-- **The date that is read is one that the clock showed meanwhile, just
where no century, year or month begins between the reading of it and of
the date**, in either way of counting, from 1900 to 2199, with one
midnight meanwhile at most. -/
theorem getDate_shown_iff {d : Day} {midnight : ℕ}
    (hshows : ∀ i, ShowsDay f (read i) (if i < midnight then d else d.tomorrow))
    (hyears : 1900 ≤ d.year ∧ d.tomorrow.year < 2200) :
    let shown := fun i => if i < midnight then d else d.tomorrow
    (∃ i, 1 ≤ i ∧ i ≤ 4 ∧ getDate read = (shown i).toDate) ↔
      (shown 1).year / 100 = (shown 4).year / 100 ∧ (shown 2).year = (shown 4).year ∧
        (shown 3).month = (shown 4).month := by
  intro shown
  have hshows : ∀ i, ShowsDay f (read i) (shown i) := hshows
  have hnext := Day.year_tomorrow (d := d)
  have hyear : ∀ i, (shown i).year = d.year ∨ (shown i).year = d.tomorrow.year := by
    intro i
    by_cases hi : i < midnight
    · exact Or.inl (congrArg Day.year (if_pos hi))
    · exact Or.inr (congrArg Day.year (if_neg hi))
  have hyears : ∀ i, 1900 ≤ (shown i).year ∧ (shown i).year < 2200 := by
    intro i
    have hi := hyear i
    omega
  have hsame : ∀ i, getDate read = (shown i).toDate ↔
      (shown 1).year / 100 * 100 + (shown 2).year % 100 = (shown i).year ∧
        (shown 3).month = (shown i).month ∧ (shown 4).date = (shown i).date := by
    intro i
    have hi := hyears i
    have h1 := hyears 1
    have hmonth := (shown i).month_mem
    have hmonth' := (shown 3).month_mem
    have hdate := (shown i).date_mem
    have hdate' := (shown 4).date_mem
    rw [getDate_eq hshows hyears, Day.toDate, Date.mk.injEq, ofNat_eq_iff' (by omega) (by omega),
      ofNat_eq_iff (by omega) (by omega), ofNat_eq_iff (by omega) (by omega)]
    omega
  have h1 := hyear 1
  have h2 := hyear 2
  have h4 := hyear 4
  constructor
  · rintro ⟨i, hpos, hle, hdate⟩
    obtain ⟨hyearRead, hmonthRead, hdateRead⟩ := (hsame i).1 hdate
    -- the date tells which of the two days it is
    have hshown : shown i = shown 4 := by
      by_cases h4 : 4 < midnight
      · exact (if_pos (by omega)).trans (if_pos h4).symm
      · by_cases hi : i < midnight
        · have hdates : d.tomorrow.date = d.date := by
            rwa [show shown 4 = d.tomorrow from if_neg h4, show shown i = d from if_pos hi]
              at hdateRead
          exact absurd hdates Day.date_tomorrow_ne
        · exact (if_neg hi).trans (if_neg h4).symm
    rw [hshown] at hyearRead hmonthRead
    omega
  · rintro ⟨hcentury, hyearRead, hmonth⟩
    refine ⟨4, by decide, le_rfl, (hsame 4).2 ⟨?_, hmonth, rfl⟩⟩
    rw [hcentury, hyearRead]
    exact Nat.div_add_mod' _ _

/-- A clock that shows a day. -/
def registersOn (f : Format) (d : Day) (register : UInt8) : UInt8 :=
  match register.toNat with
  | 0x0b => f.statusRegisterB
  | 0x32 => f.number (d.year / 100)
  | 0x09 => f.number (d.year % 100)
  | 0x08 => f.number d.month
  | 0x07 => f.number d.date
  | _ => 0

theorem showsDay_registersOn (f : Format) (d : Day) : ShowsDay f (registersOn f d) d :=
  ⟨f.of_statusRegisterB, rfl, rfl, rfl, rfl⟩

/-- The last day of a year. -/
def newYearsEve : Day := ⟨1999, 12, 31, by decide, by decide⟩

/-- Its year is read, and midnight comes before its month. -/
theorem getDate_shown_iff_newYear :
    ¬ ∃ i, 1 ≤ i ∧ i ≤ 4 ∧ getDate (fun i => registersOn ⟨false, true⟩
      (if i < 3 then newYearsEve else newYearsEve.tomorrow)) =
      (if i < 3 then newYearsEve else newYearsEve.tomorrow).toDate := by
  refine (getDate_shown_iff (fun i => showsDay_registersOn ⟨false, true⟩ _) (by decide)).not.2 ?_
  decide

end CmosRtc

end Uberos
