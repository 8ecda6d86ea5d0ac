import DockerRegistry.Lib.GoDecimal

/-!
# Instants and RFC 3339 text

A `time.Time` is taken as the instant it names, in nanoseconds since the Unix
epoch; `Before` and `Add` are then `<` and `+`. `parseRFC3339` is the fast path
that `time.Parse(time.RFC3339, s)` takes: four digits of year, two each of month,
day, hour, minute and second, each in range, the separators `-`, `T` and `:`, an
optional fraction of a second after a dot, and `Z` or an offset `±hh:mm`.
-/

namespace GoTime

def second : ℤ := 1000000000

def hour : ℤ := 3600 * second

def isLeap (year : ℕ) : Bool := year % 4 = 0 ∧ (year % 100 ≠ 0 ∨ year % 400 = 0)

def daysIn (month year : ℕ) : ℕ :=
  if month = 2 then if isLeap year then 29 else 28
  else if month = 4 ∨ month = 6 ∨ month = 9 ∨ month = 11 then 30
  else 31

/-- The days from the first of January of year 0 to that of `year`. -/
def daysBeforeYear (year : ℕ) : ℕ :=
  365 * year + (year + 3) / 4 - (year + 99) / 100 + (year + 399) / 400

/-- The days of a year before the first of `month`. -/
def daysBeforeMonth (month year : ℕ) : ℕ :=
  ((List.range (month - 1)).map fun m => daysIn (m + 1) year).sum

/-- `Date(year, month, day, hour, min, sec, nsec, UTC)` for fields in range. -/
def date (year month day hour min sec nsec : ℕ) : ℤ :=
  let days : ℤ := (daysBeforeYear year : ℤ) + daysBeforeMonth month year + (day - 1 : ℕ) -
    daysBeforeYear 1970
  (((days * 24 + hour) * 60 + min) * 60 + sec) * second + nsec

/-- `parseUint` of `parseRFC3339`: digits only, with a value in `[min, max]`. -/
def parseUint (cs : List Char) (min max : ℕ) : Option ℕ :=
  if cs.all Char.isDigit then
    let x := GoDecimal.digitsValue 0 cs
    if min ≤ x ∧ x ≤ max then some x else none
  else none

/-- `parseNanoseconds` of a dot and the digits after it: the first nine digits,
scaled to nanoseconds. -/
def nanoseconds (digits : List Char) : ℕ :=
  let digits := digits.take 9
  GoDecimal.digitsValue 0 digits * 10 ^ (9 - digits.length)

def slice (cs : List Char) (i j : ℕ) : List Char := (cs.drop i).take (j - i)

/-- The zone after the seconds: `Z`, or `±hh:mm` as seconds east of UTC. -/
def parseZone (cs : List Char) : Option ℤ :=
  if cs = ['Z'] then some 0
  else if cs.length ≠ 6 then none
  else do
    let hr ← parseUint (slice cs 1 3) 0 23
    let mm ← parseUint (slice cs 4 6) 0 59
    let zoneOffset : ℤ := (hr * 60 + mm) * 60
    match cs[0]?, cs[3]? with
    | some '+', some ':' => some zoneOffset
    | some '-', some ':' => some (-zoneOffset)
    | _, _ => none

def parseRFC3339 (s : String) : Option ℤ :=
  let cs := s.toList
  if cs.length < 19 then none
  else do
    let year ← parseUint (slice cs 0 4) 0 9999
    let month ← parseUint (slice cs 5 7) 1 12
    let day ← parseUint (slice cs 8 10) 1 (daysIn month year)
    let hour ← parseUint (slice cs 11 13) 0 23
    let min ← parseUint (slice cs 14 16) 0 59
    let sec ← parseUint (slice cs 17 19) 0 59
    if cs[4]? = some '-' ∧ cs[7]? = some '-' ∧ cs[10]? = some 'T' ∧ cs[13]? = some ':' ∧
        cs[16]? = some ':' then
      let rest := cs.drop 19
      -- the fractional second: a dot and at least one digit
      let (nsec, rest) : ℕ × List Char := match rest with
        | '.' :: d :: more =>
          if d.isDigit then
            let digits := d :: more.takeWhile Char.isDigit
            (nanoseconds digits, rest.drop (digits.length + 1))
          else (0, rest)
        | _ => (0, rest)
      let zoneOffset ← parseZone rest
      pure (date year month day hour min sec nsec - zoneOffset * second)
    else none

end GoTime
