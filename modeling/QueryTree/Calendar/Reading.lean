import QueryTree.Calendar.Time
import QueryTree.Text.Blank

/-!
Dates and times read from text. Between the parts blanks may stand; a year with a sign may have any
number of digits.
-/

namespace QueryTree.Calendar

open Text

abbrev Reader := StateT (List Char) Option

namespace Reader

def skipBlanks : Reader Unit :=
  modify (·.dropWhile isBlank)

def expect (c : Char) : Reader Unit := fun
  | d :: rest => if c = d then some ((), rest) else none
  | [] => none

/-- One digit or more, at most `width` of them. -/
def digits (width : Nat) : Reader (List Nat) := fun text =>
  let found := (leadingDigits text).1.take width
  if found.isEmpty then none else some (found, text.drop found.length)

/-- A number of at most `width` digits, behind blanks. -/
def number (width : Nat) : Reader Nat := do
  skipBlanks
  ofDigits <$> digits width

def allDigits : Reader Nat := do
  ofDigits <$> digits (← get).length

def year : Reader Int := do
  skipBlanks
  match ← get with
  | '-' :: rest => set rest; return -(← allDigits)
  | '+' :: rest => set rest; return (← allDigits)
  | _ => return (← number 4)

/-- The nanoseconds of a fraction, whose digits beyond the ninth are dropped; none if there is no
point. -/
def fraction : Reader Nat := do
  match ← get with
  | '.' :: rest =>
    set rest
    let found ← digits 9
    modify fun text => (leadingDigits text).2
    return ofDigits found * Nat.pow 10 (9 - found.length)
  | _ => return 0

def date : Reader (Int × Nat × Nat) := do
  let y ← year
  skipBlanks
  expect '-'
  let m ← number 2
  skipBlanks
  expect '-'
  let d ← number 2
  skipBlanks
  return (y, m, d)

def hourAndMinute : Reader (Nat × Nat) := do
  let h ← number 2
  skipBlanks
  expect ':'
  return (h, ← number 2)

/-- A colon, the seconds and their fraction, as nanoseconds; a second 60 is a leap second. -/
def secondAndNano : Reader (Nat × Nat) := do
  skipBlanks
  expect ':'
  let s ← number 2
  let nano ← fraction
  skipBlanks
  if s = 60 then return (59, 1000000000 + nano)
  else return (s, nano)

def whole? {α : Type} (reader : Reader α) (text : String) : Option α :=
  match (do let a ← reader; skipBlanks; return a : Reader α).run text.toList with
  | some (a, []) => some a
  | _ => none

end Reader

def Date.ofText? (text : String) : Option Date := do
  let (y, m, d) ← Reader.date.whole? text
  Date.of? y m d

def TimeOfDay.ofText? (text : String) : Option TimeOfDay := do
  let ((h, m), s, nano) ← Reader.whole? (do
    let hm ← Reader.hourAndMinute
    return (hm, (← Reader.secondAndNano <|> pure (0, 0)))) text
  TimeOfDay.of? h m s nano

/-- A day, the letter T and a time with its seconds. -/
def DateTime.ofText? (text : String) : Option DateTime := do
  let ((y, mo, d), (h, mi), s, nano) ← Reader.whole? (do
    let day ← Reader.date
    Reader.expect 'T'
    return (day, ← Reader.hourAndMinute, ← Reader.secondAndNano)) text
  return ⟨← Date.of? y mo d, ← TimeOfDay.of? h mi s nano⟩

end QueryTree.Calendar
