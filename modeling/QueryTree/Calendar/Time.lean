import QueryTree.Calendar.Date

/-! Times of day to the nanosecond, leap seconds included, alone and with a day. -/

namespace QueryTree.Calendar

/-- The times that can be held. The nanoseconds of a time can be set apart from the rest, so that a
thousand million or more of them may stand behind any second. -/
structure IsTime (hour minute second nano : Nat) : Prop where
  hour_range : hour < 24
  minute_range : minute < 60
  second_range : second < 60
  nano_range : nano < 2000000000

instance (hour minute second nano : Nat) : Decidable (IsTime hour minute second nano) :=
  decidable_of_iff (hour < 24 ∧ minute < 60 ∧ second < 60 ∧ nano < 2000000000)
    ⟨fun h => ⟨h.1, h.2.1, h.2.2.1, h.2.2.2⟩, fun h => ⟨h.1, h.2, h.3, h.4⟩⟩

structure TimeOfDay where
  hour : Nat
  minute : Nat
  second : Nat
  nano : Nat
  valid : IsTime hour minute second nano
  deriving DecidableEq

/-- The time of its parts. Only the second 59 may be a leap second here, one with a thousand million
nanoseconds or more. -/
def TimeOfDay.of? (hour minute second nano : Nat) : Option TimeOfDay :=
  if h : IsTime hour minute second nano ∧ (nano < 1000000000 ∨ second = 59) then
    some ⟨hour, minute, second, nano, h.1⟩
  else none

/-- Hour, minute and second. A thousand million nanoseconds or more count as one second more: a leap
second is written 60. -/
def TimeOfDay.text (t : TimeOfDay) : String :=
  Text.padded 2 t.hour ++ ":" ++ Text.padded 2 t.minute ++ ":" ++
    Text.padded 2 (t.second + t.nano / 1000000000)

/-- The text with the fraction of the second in three, six or nine digits, left out if zero. -/
def TimeOfDay.exactText (t : TimeOfDay) : String :=
  let fraction := t.nano % 1000000000
  t.text ++
    if fraction = 0 then ""
    else if fraction % 1000000 = 0 then "." ++ Text.padded 3 (fraction / 1000000)
    else if fraction % 1000 = 0 then "." ++ Text.padded 6 (fraction / 1000)
    else "." ++ Text.padded 9 fraction

structure DateTime where
  date : Date
  time : TimeOfDay
  deriving DecidableEq

def DateTime.text (t : DateTime) : String :=
  t.date.text ++ " " ++ t.time.text

def DateTime.exactText (t : DateTime) : String :=
  t.date.text ++ "T" ++ t.time.exactText

end QueryTree.Calendar
