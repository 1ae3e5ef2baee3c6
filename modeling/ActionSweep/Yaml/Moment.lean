import ActionSweep.Yaml.Number

/-
Scalars that are dates, alone or with a time of day, and the words for them.
-/

namespace ActionSweep.Yaml

/-- Why a text with the form of a date is not one. -/
inductive MomentFault
  | year
  | month
  | day
  | hour
  | minute
  | second
  /-- A distance from the common time of a day or more, in minutes. -/
  | zone (minutes : Int)
deriving Repr, DecidableEq

/-- A time of day, and its distance from the common time in minutes, if it has one. -/
structure DayTime where
  hour : Nat
  minute : Nat
  second : Nat
  microsecond : Nat
  zone : Option Int
deriving Repr, DecidableEq

/-- A date, alone or with a time of day. -/
structure Moment where
  year : Nat
  month : Nat
  day : Nat
  time : Option DayTime
deriving Repr, DecidableEq

namespace Moment

/-! ## Reading -/

/-- The number of some decimal digits. -/
def numberOf (t : Text) : Nat := Numeral.ofDigits 10 (t.filterMap decimalDigit?)

/-- A number of decimal digits between two counts, and what follows; as many digits as there are. -/
def digits? (least most : Nat) (t : Text) : Option (Nat × Text) :=
  let ds := (t.take most).takeWhile isDecimal
  if ds.length < least then none else some (numberOf ds, t.drop ds.length)

def after? (c : Char) (t : Text) : Option Text := Text.dropBeginning? [c] t

def isInnerBlank (c : Char) : Bool := c = ' ' || c = '\t'

/-- The hours and minutes of a distance from the common time. -/
def distance? (t : Text) : Option Int :=
  match digits? 1 2 t with
  | some (hours, []) => some (60 * hours)
  | some (hours, ':' :: rest) =>
    match digits? 2 2 rest with
    | some (minutes, []) => some (60 * hours + minutes)
    | _ => none
  | _ => none

/-- The distance from the common time at the end of a time: nothing, the letter for none, or hours and
minutes behind a sign. The outer value is missing if the text is none of these. -/
def zone? (t : Text) : Option (Option Int) :=
  match t.dropWhile isInnerBlank with
  | [] => if t.isEmpty then some none else none
  | ['Z'] => some (some 0)
  | '+' :: rest => (distance? rest).map some
  | '-' :: rest => (distance? rest).map fun n => some (-n)
  | _ => none

/-- The millionths of a second that the digits of a fraction stand for; further digits do not count. -/
def microseconds (digits : Text) : Nat :=
  let ds := digits.take 6
  numberOf (ds ++ List.replicate (6 - ds.length) '0')

/-- The day at the beginning of a text: year, month and day, and what follows. -/
def day? (t : Text) : Option (Nat × Nat × Nat × Text) := do
  let (year, t) ← digits? 4 4 t
  let (month, t) ← digits? 1 2 (← after? '-' t)
  let (day, t) ← digits? 1 2 (← after? '-' t)
  return (year, month, day, t)

/-- A time of day. -/
def time? (t : Text) : Option DayTime := do
  let (hour, t) ← digits? 1 2 t
  let (minute, t) ← digits? 2 2 (← after? ':' t)
  let (second, t) ← digits? 2 2 (← after? ':' t)
  let (fraction, t) := match t with
    | '.' :: t => (t.takeWhile isDecimal, t.dropWhile isDecimal)
    | t => ([], t)
  return ⟨hour, minute, second, microseconds fraction, ← zone? t⟩

/-- What separates a day from its time. -/
def afterSeparator? : Text → Option Text
  | c :: rest =>
    if c = 'T' || c = 't' then some rest
    else if isInnerBlank c then some (rest.dropWhile isInnerBlank)
    else none
  | [] => none

/-- The moment that a text is, whether or not there is such a day and time. -/
def ofText? (t : Text) : Option Moment := do
  let (year, month, day, rest) ← day? t
  match rest with
  | [] => return ⟨year, month, day, none⟩
  | rest => return ⟨year, month, day, some (← time? (← afterSeparator? rest))⟩

/-- Whether a plain scalar has the form of a moment. Without a time behind it, month and day have two
digits. -/
def isForm (t : Text) : Bool :=
  (ofText? t).any fun m => m.time.isSome || t.length = 10

/-! ## Days and times that there are -/

def isLeapYear (year : Nat) : Bool := year % 4 = 0 && (year % 100 ≠ 0 || year % 400 = 0)

def daysIn (year month : Nat) : Nat :=
  if month = 2 then (if isLeapYear year then 29 else 28)
  else if month = 4 || month = 6 || month = 9 || month = 11 then 30 else 31

def checkDay (m : Moment) : Except MomentFault Unit :=
  if m.year = 0 then .error .year
  else if m.month = 0 || 12 < m.month then .error .month
  else if m.day = 0 || daysIn m.year m.month < m.day then .error .day
  else .ok ()

/-- The minutes of a day. -/
def dayMinutes : Nat := 1440

def checkZone (t : DayTime) : Except MomentFault Unit :=
  match t.zone with
  | some n => if dayMinutes ≤ n.natAbs then .error (.zone n) else .ok ()
  | none => .ok ()

def checkTime (t : DayTime) : Except MomentFault Unit :=
  if 23 < t.hour then .error .hour
  else if 59 < t.minute then .error .minute
  else if 59 < t.second then .error .second
  else .ok ()

/-- Refuses days and times that there are not. The distance from the common time is looked at first. -/
def checked (m : Moment) : Except MomentFault Moment := do
  match m.time with
  | none => checkDay m
  | some t =>
    checkZone t
    checkDay m
    checkTime t
  return m

/-! ## Words -/

/-- A number with two digits at least. -/
def padded (width n : Nat) : Text :=
  let ds := Text.ofNat n
  List.replicate (width - ds.length) '0' ++ ds

/-- A span of minutes as days and seconds, which are never negative. -/
def spanShown (minutes : Int) : Text :=
  let days := minutes.fdiv dayMinutes
  let seconds := 60 * minutes.fmod dayMinutes
  let parts := (if days = 0 then [] else [("days=" : Text) ++ Text.ofInt days]) ++
    (if seconds = 0 then [] else [("seconds=" : Text) ++ Text.ofInt seconds])
  "datetime.timedelta(" ++ (if parts.isEmpty then ['0'] else Text.join ", " parts) ++ ")"

/-- The distance from the common time inside a value that is shown. -/
def zoneShown (minutes : Int) : Text :=
  if minutes = 0 then "datetime.timezone.utc"
  else "datetime.timezone(" ++ spanShown minutes ++ ")"

/-- The numbers of a time, without what is zero at the end. -/
def timeNumbers (t : DayTime) : List Nat :=
  [t.hour, t.minute] ++
    (if t.microsecond ≠ 0 then [t.second, t.microsecond]
     else if t.second ≠ 0 then [t.second] else [])

/-- A moment as it stands inside a list. -/
def shown (m : Moment) : Text :=
  let day := [m.year, m.month, m.day]
  match m.time with
  | none => "datetime.date(" ++ Text.join ", " (day.map Text.ofNat) ++ ")"
  | some t =>
    "datetime.datetime(" ++ Text.join ", " ((day ++ timeNumbers t).map Text.ofNat) ++
      (match t.zone with
       | some n => (", tzinfo=" : Text) ++ zoneShown n
       | none => []) ++ ")"

/-- The distance from the common time in a sentence. -/
def zoneWords (minutes : Int) : Text :=
  (if minutes < 0 then '-' else '+') :: padded 2 (minutes.natAbs / 60) ++
    ':' :: padded 2 (minutes.natAbs % 60)

/-- A moment as it stands in a sentence. -/
def words (m : Moment) : Text :=
  let day := padded 4 m.year ++ "-" ++ padded 2 m.month ++ "-" ++ padded 2 m.day
  match m.time with
  | none => day
  | some t =>
    day ++ " " ++ padded 2 t.hour ++ ":" ++ padded 2 t.minute ++ ":" ++ padded 2 t.second ++
      (if t.microsecond = 0 then [] else '.' :: padded 6 t.microsecond) ++
      (match t.zone with
       | some n => zoneWords n
       | none => [])

/-- The kind of a moment, as messages spell it. -/
def kind (m : Moment) : Text :=
  if m.time.isSome then "datetime.datetime" else "datetime.date"

end Moment

def MomentFault.message : MomentFault → Text
  | year => "year 0 is out of range"
  | month => "month must be in 1..12"
  | day => "day is out of range for month"
  | hour => "hour must be in 0..23"
  | minute => "minute must be in 0..59"
  | second => "second must be in 0..59"
  | zone n => ("offset must be a timedelta strictly between -timedelta(hours=24) and " : Text) ++
      ("timedelta(hours=24), not " ++ Moment.spanShown n ++ ".")

end ActionSweep.Yaml
