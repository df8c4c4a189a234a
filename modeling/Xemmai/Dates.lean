import Xemmai.Formatted
import Xemmai.Time

/-!
# The texts of dates

The formats of mails, of HTTP and of XML Schema. The buffers of the first two have room
for any date. That of the third does not have room for every precision: where the text
does not fit there is none, and the string is made of a size that is not one.
-/

namespace Xemmai.Dates

set_option autoImplicit false
set_option linter.unusedSectionVars false

open Gregorian Formatted Time

/-- What the texts of doubles depend on besides their values. -/
class Textual (F : Type) where
  signbit : F → Bool
  /-- The double that is nearest to a decimal with a sign. -/
  ofDecimal : Bool → ℚ → F
  /-- The text of what is not finite. -/
  infinite : F → List Char
  /-- The other forms that are read, after the sign. -/
  other : Bool → List Char → Option (F × List Char)
  /-- The decimal point of the locale. -/
  point : Char

variable {F O : Type} [Double F] [Boxed O F] [Numeric F] [Textual F]

class LawfulText (F : Type) [Numeric F] [Textual F] : Prop where
  signbit {x : F} {q : ℚ} : value x = some q → 0 < q → Textual.signbit x = false
  ofDecimal {negative : Bool} {q : ℚ} : Representable F q →
    value (Textual.ofDecimal (F := F) negative q) = some (if negative then -q else q)
  isPoint : IsPoint (Textual.point F)

/-! ### Names -/

/-- `v_rfc2822_days` -/
def rfc2822Days : List (List Char) :=
  [['S', 'u', 'n'], ['M', 'o', 'n'], ['T', 'u', 'e'], ['W', 'e', 'd'], ['T', 'h', 'u'],
    ['F', 'r', 'i'], ['S', 'a', 't']]

/-- `v_rfc2822_months` -/
def rfc2822Months : List (List Char) :=
  [['J', 'a', 'n'], ['F', 'e', 'b'], ['M', 'a', 'r'], ['A', 'p', 'r'], ['M', 'a', 'y'],
    ['J', 'u', 'n'], ['J', 'u', 'l'], ['A', 'u', 'g'], ['S', 'e', 'p'], ['O', 'c', 't'],
    ['N', 'o', 'v'], ['D', 'e', 'c']]

/-- `f_month_name_to_number`: every letter in either case. -/
def monthNameToNumber (a_name : List Char) : Int :=
  match a_name.map Char.toLower with
  | ['a', 'p', 'r'] => 4
  | ['a', 'u', 'g'] => 8
  | ['d', 'e', 'c'] => 12
  | ['f', 'e', 'b'] => 2
  | ['j', 'a', 'n'] => 1
  | ['j', 'u', 'l'] => 7
  | ['j', 'u', 'n'] => 6
  | ['m', 'a', 'r'] => 3
  | ['m', 'a', 'y'] => 5
  | ['n', 'o', 'v'] => 11
  | ['o', 'c', 't'] => 10
  | ['s', 'e', 'p'] => 9
  | _ => 0

def military (rest : List Char) (hours : Int) : Int :=
  if rest.isEmpty then hours * 3600 else 0

def zoneToOffsetUs (rest : List Char) (a_military a_us : Int) : Int :=
  match rest.map Char.toLower with
  | [] => a_military * 3600
  | ['d', 't'] => (a_us + 1) * 3600
  | ['s', 't'] => a_us * 3600
  | _ => 0

def digit (c : Char) : Int := (c.toNat : Int) - 48

/-- The digits after the sign, with a colon or without. -/
def signedOffset (unit : Int) (rest : List Char) : Int :=
  match rest with
  | [h, h', ':', m, m'] | [h, h', m, m'] =>
      if h.isDigit && h'.isDigit && m.isDigit && m'.isDigit then
        unit * ((digit h * 10 + digit h') * 60 + (digit m * 10 + digit m'))
      else 0
  | _ => 0

def zoneToOffset (a_zone : List Char) : Int :=
  match a_zone with
  | [] => 0
  | c :: rest =>
      match c.toLower with
      | '+' => signedOffset 60 rest
      | '-' => signedOffset (-60) rest
      | 'a' => military rest 1
      | 'b' => military rest 2
      | 'c' => zoneToOffsetUs rest 3 (-6)
      | 'd' => military rest 4
      | 'e' => zoneToOffsetUs rest 5 (-5)
      | 'f' => military rest 6
      | 'g' => military rest 7
      | 'h' => military rest 8
      | 'i' => military rest 9
      | 'k' => military rest 10
      | 'l' => military rest 11
      | 'm' => zoneToOffsetUs rest 12 (-7)
      | 'n' => military rest (-1)
      | 'o' => military rest (-2)
      | 'p' => zoneToOffsetUs rest (-3) (-8)
      | 'q' => military rest (-4)
      | 'r' => military rest (-5)
      | 's' => military rest (-6)
      | 't' => military rest (-7)
      | 'u' => military rest (-8)
      | 'v' => military rest (-9)
      | 'w' => military rest (-10)
      | 'x' => military rest (-11)
      | 'y' => military rest (-12)
      | _ => 0

/-! ### Reading -/

def invalidFormat : Failure := .threw "invalid format."

def cString (s : List Char) : List Char := s.takeWhile (· ≠ '\x00')

def integer (n : Int) : Value F O := .integer (BitVec.ofInt 64 n)

variable (F) in
/-- `std::swscanf` -/
def swscanf (format : List Directive) (s : List Char) : List (Item F) :=
  Formatted.swscanf (Textual.point F) Textual.ofDecimal Textual.other format s

def century (year : Int) : Int :=
  if year < 50 then year + 2000 else if year < 1000 then year + 1900 else year

/-- `%*3ls, %2d %3ls %4d %2d:%2d%n` -/
def rfc2822Start : List Directive :=
  [.skipWord 3, .char ',', .space, .integer 2, .space, .word 3, .space, .integer 4, .space,
    .integer 2, .char ':', .integer 2, .count]

variable (F) in
/-- The second and the zone of `parse_rfc2822`; the second may be missing. -/
def rfc2822End (s : List Char) : Except Failure (Int × List Char) :=
  match s with
  | ':' :: rest =>
      -- `%2d %5ls`
      match swscanf F [.integer 2, .space, .word 5] rest with
      | [.integer second, .text zone] => .ok (second, zone)
      | _ => .error invalidFormat
  | _ =>
      -- ` %5ls`
      match swscanf F [.space, .word 5] s with
      | [.text zone] => .ok (0, zone)
      | _ => .error invalidFormat

def parseRfc2822 (a_value : List Char) : Except Failure (List (Value F O)) :=
  let s := cString a_value
  match swscanf F rfc2822Start s with
  | [.integer day, .text month, .integer year, .integer hour, .integer minute, .count i] =>
      let m := monthNameToNumber month
      if m ≤ 0 then .error invalidFormat
      else do
        let (second, zone) ← rfc2822End F (s.drop i)
        .ok [integer (century year), integer m, integer day, integer hour, integer minute,
          integer second, integer (zoneToOffset zone)]
  | _ => .error invalidFormat

/-- `%*3ls, %2d %3ls %4d %2d:%2d:%2d GMT` -/
def http : List Directive :=
  [.skipWord 3, .char ',', .space, .integer 2, .space, .word 3, .space, .integer 4, .space,
    .integer 2, .char ':', .integer 2, .char ':', .integer 2, .space, .char 'G', .char 'M',
    .char 'T']

/-- `%*l[A-Za-z], %2d-%3ls-%2d %2d:%2d:%2d GMT` -/
def httpLong : List Directive :=
  [.skipLetters, .char ',', .space, .integer 2, .char '-', .word 3, .char '-', .integer 2, .space,
    .integer 2, .char ':', .integer 2, .char ':', .integer 2, .space, .char 'G', .char 'M',
    .char 'T']

/-- `%*3ls %3ls %2d %2d:%2d:%2d %4d` -/
def httpPlain : List Directive :=
  [.skipWord 3, .space, .word 3, .space, .integer 2, .space, .integer 2, .char ':', .integer 2,
    .char ':', .integer 2, .space, .integer 4]

/-- The end of `parse_http`. -/
def httpFields (month : List Char) (day year hour minute second : Int) :
    Except Failure (List (Value F O)) :=
  let m := monthNameToNumber month
  if m ≤ 0 then .error invalidFormat
  else .ok [integer (century year), integer m, integer day, integer hour, integer minute,
    integer second]

def parseHttp (a_value : List Char) : Except Failure (List (Value F O)) :=
  let s := cString a_value
  match swscanf F http s with
  | [.integer day, .text month, .integer year, .integer hour, .integer minute, .integer second] =>
      httpFields month day year hour minute second
  | _ =>
      match swscanf F httpLong s with
      | [.integer day, .text month, .integer year, .integer hour, .integer minute,
          .integer second] =>
          httpFields month day year hour minute second
      | _ =>
          match swscanf F httpPlain s with
          | [.text month, .integer day, .integer hour, .integer minute, .integer second,
              .integer year] =>
              httpFields month day year hour minute second
          | _ => .error invalidFormat

/-- `%5d-%2d-%2dT%2d:%2d:%lf%6ls` -/
def xsd : List Directive :=
  [.integer 5, .char '-', .integer 2, .char '-', .integer 2, .char 'T', .integer 2, .char ':',
    .integer 2, .char ':', .double, .word 6]

def parseXsd (a_value : List Char) : Except Failure (List (Value F O)) :=
  match swscanf F xsd (cString a_value) with
  | [.integer year, .integer month, .integer day, .integer hour, .integer minute,
      .double second] =>
      .ok [integer year, integer month, integer day, integer hour, integer minute, .float second]
  | [.integer year, .integer month, .integer day, .integer hour, .integer minute,
      .double second, .text zone] =>
      .ok [integer year, integer month, integer day, integer hour, integer minute, .float second,
        integer (zoneToOffset zone)]
  | _ => .error invalidFormat

/-! ### Writing -/

def element (table : List (List Char)) (i : Int) : Except Failure (List Char) :=
  match if i < 0 then none else table[i.toNat]? with
  | some name => .ok name
  | none => .error .undefined

/-- `t_string::f_instantiate` of a buffer, with the size -1 where `swprintf` failed. -/
def instantiate (text : Option (List Char)) : Except Failure (List Char) :=
  match text with
  | some text => .ok text
  | none => .error .undefined

/-- `static_cast<intptr_t>(std::floor(f_item_with_fraction(a_value, a_index)))` -/
def floorItem (a_value : List (Value F O)) (a_index : Nat) : Except Failure Int := do
  let x ← itemWithFraction a_value a_index
  match value (Numeric.floor x) with
  | some q => checked q.num
  | none => .error .undefined

def zone (a_offset : Word) : Except Failure (Char × Int × Int) := do
  let sign := if 0 < a_offset.toInt then '+' else '-'
  let offset ← checked |a_offset.toInt|
  .ok (sign, offset / 60 / 60, offset / 60 % 60)

def formatRfc2822 (a_value : List (Value F O)) (a_offset : Word) : Except Failure (List Char) :=
  if a_value.length < 7 then .error (.threw "must have at least 7 items.")
  else do
    let year ← item a_value 0
    let month ← item a_value 1
    let day ← item a_value 2
    let hour ← item a_value 3
    let minute ← item a_value 4
    let second ← floorItem a_value 5
    let week ← item a_value 6
    let (sign, hours, minutes) ← zone a_offset
    let weekName ← element rfc2822Days week.toInt
    let month ← checked (month.toInt - 1)
    let monthName ← element rfc2822Months month
    -- `%ls, %d %ls %04d %02d:%02d:%02d %lc%02d%02d`
    instantiate (swprintf 32 [weekName, [',', ' '], integerText 0 day.toInt, [' '], monthName,
      [' '], integerText 4 year.toInt, [' '], integerText 2 hour.toInt, [':'],
      integerText 2 minute.toInt, [':'], integerText 2 second, [' ', sign],
      integerText 2 hours, integerText 2 minutes].flatten)

def formatHttp (a_value : List (Value F O)) : Except Failure (List Char) :=
  if a_value.length < 7 then .error (.threw "must have at least 7 items.")
  else do
    let year ← item a_value 0
    let month ← item a_value 1
    let day ← item a_value 2
    let hour ← item a_value 3
    let minute ← item a_value 4
    let second ← floorItem a_value 5
    let week ← item a_value 6
    let weekName ← element rfc2822Days week.toInt
    let month ← checked (month.toInt - 1)
    let monthName ← element rfc2822Months month
    -- `%ls, %02d %ls %04d %02d:%02d:%02d GMT`
    instantiate (swprintf 30 [weekName, [',', ' '], integerText 2 day.toInt, [' '], monthName,
      [' '], integerText 4 year.toInt, [' '], integerText 2 hour.toInt, [':'],
      integerText 2 minute.toInt, [':'], integerText 2 second, [' ', 'G', 'M', 'T']].flatten)

/-- `swprintf` takes the precision for an `int`, and six instead of a negative one. -/
def precisionOf (a_precision : Word) : Nat :=
  let precision := (a_precision.setWidth 32).toInt
  if precision < 0 then 6 else precision.toNat

/-- `%02.*f` -/
def secondText (a_precision : Word) (x : F) : List Char :=
  match value x with
  | some q => fixedText (Textual.point F) 2 (precisionOf a_precision) (Textual.signbit x) q
  | none => Textual.infinite x

/-- `%04d-%02d-%02dT%02d:%02d:%02.*f` and what follows. -/
def xsdText (year month day hour minute : Word) (second zone : List Char) : List Char :=
  [integerText 4 year.toInt, ['-'], integerText 2 month.toInt, ['-'], integerText 2 day.toInt,
    ['T'], integerText 2 hour.toInt, [':'], integerText 2 minute.toInt, [':'], second,
    zone].flatten

def formatXsd (a_value : List (Value F O)) (a_offset a_precision : Word) :
    Except Failure (List Char) :=
  if a_value.length < 6 then .error (.threw "must have at least 6 items.")
  else do
    let year ← item a_value 0
    let month ← item a_value 1
    let day ← item a_value 2
    let hour ← item a_value 3
    let minute ← item a_value 4
    let second ← itemWithFraction a_value 5
    let text := xsdText year month day hour minute (secondText a_precision second)
    if a_offset = 0 then
      instantiate (swprintf 30 (text ['Z']))
    else do
      let (sign, hours, minutes) ← zone a_offset
      -- `%lc%02d:%02d`
      instantiate (swprintf 30
        (text [[sign], integerText 2 hours, [':'], integerText 2 minutes].flatten))

/-! ### Names and zones -/

def Plain (text : List Char) : Prop := ∀ c ∈ text, c ≠ '\x00'

theorem plain_of_all {text : List Char} (all : text.all (· ≠ '\x00') = true) : Plain text :=
  fun c member => of_decide_eq_true (List.all_eq_true.mp all c member)

theorem cString_plain {text : List Char} (plain : Plain text) : cString text = text := by
  unfold cString
  rw [List.takeWhile_eq_self_iff]
  intro c member
  exact decide_eq_true (plain c member)

theorem plain_digits {text : List Char} {n : Nat} (digits : Digits text n) : Plain text := by
  intro c member same
  have digit := digits.digits c member
  rw [same] at digit
  cases digit

theorem word_of_all {text : List Char} (all : text.all (!isSpace ·) = true) :
    ∀ c ∈ text, isSpace c = false :=
  fun c member => by simpa using List.all_eq_true.mp all c member

structure IsName (name : List Char) : Prop where
  length : name.length = 3
  plain : Plain name
  word : ∀ c ∈ name, isSpace c = false

theorem IsName.nonempty {name : List Char} (isName : IsName name) : name ≠ [] := by
  intro empty
  have length := isName.length
  rw [empty] at length
  cases length

theorem day_name {week : Int} (low : 0 ≤ week) (high : week < 7) :
    ∃ name, element rfc2822Days week = .ok name ∧ IsName name := by
  interval_cases week <;>
    exact ⟨_, rfl, rfl, plain_of_all (by decide), word_of_all (by decide)⟩

theorem month_name {month : Int} (low : 1 ≤ month) (high : month ≤ 12) :
    ∃ name, element rfc2822Months (month - 1) = .ok name ∧ IsName name ∧
      monthNameToNumber name = month := by
  interval_cases month <;>
    exact ⟨_, rfl, ⟨rfl, plain_of_all (by decide), word_of_all (by decide)⟩, rfl⟩

theorem two_digits {n : Nat} (small : n < 100) :
    ∃ a b, integerText 2 n = [a, b] ∧ a.isDigit = true ∧ b.isDigit = true ∧
      digit a * 10 + digit b = n := by
  have digits : Digits (integerText 2 n) n := integerText_digits
  obtain ⟨a, b, text⟩ := List.length_eq_two.mp
    (integerText_width (Int.natCast_nonneg n) (by omega : (n : Int) < 10 ^ 2) (by decide))
  rw [text] at digits
  have isDigit := digits.digits a (by simp)
  have isDigit' := digits.digits b (by simp)
  refine ⟨a, b, text, isDigit, isDigit', ?_⟩
  have number := digits.number
  simp only [Nat.ofDigitChars_cons, Nat.ofDigitChars_nil] at number
  simp only [Char.isDigit, Bool.and_eq_true, decide_eq_true_eq] at isDigit isDigit'
  have low : 48 ≤ a.toNat := isDigit.1
  have low' : 48 ≤ b.toNat := isDigit'.1
  have code : '0'.toNat = 48 := rfl
  unfold digit
  omega

/-- A whole number of minutes below a hundred hours. -/
def WholeMinutes (offset : Int) : Prop := offset % 60 = 0 ∧ |offset| < 360000

theorem signedOffset_digits {h m : Nat} (hours : h < 100) (minutes : m < 100) (unit : Int) :
    signedOffset unit (integerText 2 h ++ integerText 2 m) = unit * (h * 60 + m) ∧
      signedOffset unit (integerText 2 h ++ ':' :: integerText 2 m) = unit * (h * 60 + m) := by
  obtain ⟨a, a', text, isDigit, isDigit', number⟩ := two_digits hours
  obtain ⟨b, b', text', secondDigit, secondDigit', number'⟩ := two_digits minutes
  rw [text, text', ← number, ← number']
  simp [signedOffset, isDigit, isDigit', secondDigit, secondDigit']

/-- The sign and the digits of an offset are read as the offset. -/
theorem zone_of {a_offset : Word} (whole : WholeMinutes a_offset.toInt) :
    ∃ (sign : Char) (hours minutes : Nat), zone a_offset = .ok (sign, hours, minutes) ∧
      (sign = '+' ∨ sign = '-') ∧ hours < 100 ∧ minutes < 100 ∧
      zoneToOffset (sign :: (integerText 2 hours ++ integerText 2 minutes)) =
        a_offset.toInt ∧
      zoneToOffset (sign :: (integerText 2 hours ++ ':' :: integerText 2 minutes)) =
        a_offset.toInt := by
  obtain ⟨minute, small⟩ := whole
  have magnitude : |a_offset.toInt| = a_offset.toInt.natAbs := Int.abs_eq_natAbs _
  rw [magnitude] at small
  have few : a_offset.toInt.natAbs / 60 / 60 < 100 := by omega
  have few' : a_offset.toInt.natAbs / 60 % 60 < 100 := by omega
  have fits : Fits |a_offset.toInt| := by
    rw [magnitude]
    unfold Fits
    omega
  refine ⟨if 0 < a_offset.toInt then '+' else '-', a_offset.toInt.natAbs / 60 / 60,
    a_offset.toInt.natAbs / 60 % 60, ?_, ?_, few, few', ?_⟩
  · unfold zone
    rw [checked_eq.mpr ⟨fits, rfl⟩, magnitude]
    rfl
  · split
    · exact .inl rfl
    · exact .inr rfl
  · by_cases positive : 0 < a_offset.toInt
    · rw [if_pos positive]
      obtain ⟨plain, colon⟩ := signedOffset_digits few few' 60
      constructor
      · change signedOffset 60 _ = _
        rw [plain]
        omega
      · change signedOffset 60 _ = _
        rw [colon]
        omega
    · rw [if_neg positive]
      obtain ⟨plain, colon⟩ := signedOffset_digits few few' (-60)
      constructor
      · change signedOffset (-60) _ = _
        rw [plain]
        omega
      · change signedOffset (-60) _ = _
        rw [colon]
        omega

/-! ### The items -/

def Has (a_value : List (Value F O)) (a_index : Nat) (n : Int) : Prop :=
  ∃ a, a_value[a_index]? = some a ∧ IsInteger a n

/-- The items of a date and a time of four digits of years and whole seconds. -/
structure Fields (a_value : List (Value F O)) (date : Date) (hour minute second : Int) :
    Prop where
  valid : date.Valid
  year : 1000 ≤ date.year ∧ date.year ≤ 9999
  hours : 0 ≤ hour ∧ hour < 24
  minutes : 0 ≤ minute ∧ minute < 60
  seconds : 0 ≤ second ∧ second ≤ 60
  hasYear : Has a_value 0 date.year
  hasMonth : Has a_value 1 date.month
  hasDay : Has a_value 2 date.day
  hasHour : Has a_value 3 hour
  hasMinute : Has a_value 4 minute
  hasSecond : ∃ a, a_value[5]? = some a ∧ IsIntegral a second

def IsWeekday (date : Date) (week : Int) : Prop := ∃ n, Date.Days date n ∧ week = (n + 4) % 7

section

variable [LawfulDouble F] [LawfulText F] {a_value : List (Value F O)} {date : Date}
  {hour minute second : Int}

theorem Fields.double (fields : Fields a_value date hour minute second) :
    ∃ x, itemWithFraction a_value 5 = .ok x ∧ value x = some (second : ℚ) := by
  obtain ⟨a, found, integral⟩ := fields.hasSecond
  have bounds := fields.seconds
  apply itemWithFraction_of _ a found integral
  apply LawfulDouble.small
  rw [abs_le]
  omega

theorem Fields.floor (fields : Fields a_value date hour minute second) :
    floorItem a_value 5 = .ok second := by
  obtain ⟨x, read, same⟩ := fields.double
  have whole := LawfulDouble.floor same
  have bounds := fields.seconds
  have fits : Fits second := by
    unfold Fits
    omega
  rw [Int.floor_intCast] at whole
  unfold floorItem
  rw [read]
  simp only [bind, Except.bind, whole, Rat.num_intCast]
  exact checked_eq.mpr ⟨fits, rfl⟩

theorem Fields.day (fields : Fields a_value date hour minute second) :
    1 ≤ date.day ∧ date.day ≤ 31 := by
  obtain ⟨_, _, low, high⟩ := fields.valid
  refine ⟨low, Int.le_trans high ?_⟩
  unfold Gregorian.monthLength
  split
  · split <;> omega
  · split <;> omega

end

/-! ### Mails and HTTP -/

section

variable [LawfulDouble F] [LawfulText F]

def dateText (padding : Nat) (week month : List Char) (date : Date) (hour minute : Int)
    (rest : List Char) : List Char :=
  week ++ ',' :: ' ' :: (integerText padding date.day ++ ' ' :: (month ++ ' ' ::
    (integerText 4 date.year ++ ' ' :: (integerText 2 hour ++ ':' ::
      (integerText 2 minute ++ rest)))))

/-- What the bounds of a date and a time are to its texts. -/
structure Bounds (date : Date) (hour minute second : Int) : Prop where
  year : 0 ≤ date.year ∧ date.year < 10 ^ 4
  month : 0 ≤ date.month ∧ date.month < 10 ^ 2
  day : 0 ≤ date.day ∧ date.day < 10 ^ 2
  hour : 0 ≤ hour ∧ hour < 10 ^ 2
  minute : 0 ≤ minute ∧ minute < 10 ^ 2
  second : 0 ≤ second ∧ second < 10 ^ 2

variable {a_value : List (Value F O)} {date : Date} {hour minute second : Int}
  {week month : List Char} {padding total : Nat} {format : List Directive} {rest : List Char}

theorem Fields.bounds (fields : Fields a_value date hour minute second) :
    Bounds date hour minute second := by
  obtain ⟨low, high⟩ := fields.day
  obtain ⟨low', high', -, -⟩ := fields.valid
  have := fields.year
  have := fields.hours
  have := fields.minutes
  have := fields.seconds
  constructor <;> omega

theorem scan_dateText (bounds : Bounds date hour minute second) (isWeek : IsName week)
    (isMonth : IsName month) (padded : padding ≤ 2)
    (stops : ∀ c ∈ rest.head?, c.isDigit = false) :
    scan (F := F) (Textual.point F) Textual.ofDecimal Textual.other total
        (.skipWord 3 :: .char ',' :: .space :: .integer 2 :: .space :: .word 3 :: .space ::
          .integer 4 :: .space :: .integer 2 :: .char ':' :: .integer 2 :: format)
        (dateText padding week month date hour minute rest) =
      .integer date.day :: .text month :: .integer date.year :: .integer hour ::
        .integer minute ::
          scan (Textual.point F) Textual.ofDecimal Textual.other total format rest := by
  unfold dateText
  rw [scan_skipWord isWeek.word isWeek.nonempty (.inl isWeek.length), scan_char,
    scan_space_integerText bounds.day.1 bounds.day.2 (by decide) padded (by simp),
    scan_space_word isMonth.word isMonth.nonempty (.inl isMonth.length),
    scan_space_integerText bounds.year.1 bounds.year.2 (by decide) (by decide) (by simp),
    scan_space_integerText bounds.hour.1 bounds.hour.2 (by decide) (by decide) (by simp),
    scan_char,
    scan_integerText bounds.minute.1 bounds.minute.2 (by decide) (by decide) stops]

theorem flatten_dateText {texts : List (List Char)} :
    (week :: [',', ' '] :: integerText padding date.day :: [' '] :: month :: [' '] ::
      integerText 4 date.year :: [' '] :: integerText 2 hour :: [':'] ::
        integerText 2 minute :: texts).flatten =
      dateText padding week month date hour minute texts.flatten := by
  simp [dateText]

theorem dateText_length (bounds : Bounds date hour minute second) (isWeek : IsName week)
    (isMonth : IsName month) (padded : padding ≤ 2) :
    (dateText padding week month date hour minute rest).length ≤ 22 + rest.length := by
  obtain ⟨n, day⟩ := Int.eq_ofNat_of_zero_le bounds.day.1
  have few : n < 10 ^ 2 := by
    have high := bounds.day.2
    omega
  have short : (integerText padding (n : Int)).length ≤ max padding 2 :=
    integerText_length few (by decide)
  unfold dateText
  simp only [List.length_append, List.length_cons, isWeek.length, isMonth.length, day,
    integerText_width bounds.year.1 bounds.year.2 (by decide),
    integerText_width bounds.hour.1 bounds.hour.2 (by decide),
    integerText_width bounds.minute.1 bounds.minute.2 (by decide)]
  omega

theorem drop_dateText : (dateText padding week month date hour minute rest).drop
    ((dateText padding week month date hour minute rest).length - rest.length) = rest := by
  obtain ⟨front, text⟩ : ∃ front, dateText padding week month date hour minute rest =
      front ++ rest := by
    refine ⟨dateText padding week month date hour minute [], ?_⟩
    simp [dateText]
  rw [text, List.length_append, Nat.add_sub_cancel, List.drop_left]

theorem plain_integerText {k : Int} (low : 0 ≤ k) : Plain (integerText padding k) := by
  obtain ⟨n, rfl⟩ := Int.eq_ofNat_of_zero_le low
  exact plain_digits integerText_digits

theorem plain_append {left right : List Char} (plain : Plain left) (plain' : Plain right) :
    Plain (left ++ right) :=
  List.forall_mem_append.mpr ⟨plain, plain'⟩

theorem plain_cons {c : Char} {text : List Char} (other : c ≠ '\x00') (plain : Plain text) :
    Plain (c :: text) :=
  List.forall_mem_cons.mpr ⟨other, plain⟩

theorem sign_clean {sign : Char} (signs : sign = '+' ∨ sign = '-') :
    sign ≠ '\x00' ∧ isSpace sign = false := by
  cases signs with
  | inl plus => rw [plus]; decide
  | inr minus => rw [minus]; decide

theorem plain_dateText (bounds : Bounds date hour minute second) (isWeek : IsName week)
    (isMonth : IsName month) (plain : Plain rest) :
    Plain (dateText padding week month date hour minute rest) := by
  unfold dateText
  apply plain_append isWeek.plain
  apply plain_cons (by decide)
  apply plain_cons (by decide)
  apply plain_append (plain_integerText bounds.day.1)
  apply plain_cons (by decide)
  apply plain_append isMonth.plain
  apply plain_cons (by decide)
  apply plain_append (plain_integerText bounds.year.1)
  apply plain_cons (by decide)
  apply plain_append (plain_integerText bounds.hour.1)
  apply plain_cons (by decide)
  exact plain_append (plain_integerText bounds.minute.1) plain

theorem instantiate_fits {size : Nat} {text : List Char} (fits : text.length < size) :
    instantiate (swprintf size text) = .ok text := by
  unfold swprintf
  rw [if_pos fits]
  rfl

theorem instantiate_fails {size : Nat} {text : List Char} (long : ¬text.length < size) :
    instantiate (swprintf size text) = .error .undefined := by
  unfold swprintf
  rw [if_neg long]
  rfl

theorem IsWeekday.bounds {week : Int} (weekday : IsWeekday date week) : 0 ≤ week ∧ week < 7 := by
  obtain ⟨n, -, rfl⟩ := weekday
  omega

theorem names_of (fields : Fields a_value date hour minute second) {n : Int}
    (weekday : IsWeekday date n) :
    ∃ week month, IsName week ∧ IsName month ∧ monthNameToNumber month = date.month ∧
      element rfc2822Days n = .ok week ∧ checked (date.month - 1) = .ok (date.month - 1) ∧
      element rfc2822Months (date.month - 1) = .ok month := by
  obtain ⟨lowWeek, highWeek⟩ := weekday.bounds
  obtain ⟨week, namesWeek, isWeek⟩ := day_name lowWeek highWeek
  obtain ⟨month, namesMonth, isMonth, number⟩ :=
    month_name fields.valid.month_low fields.valid.month_high
  have fits : Fits (date.month - 1) := by
    have := fields.bounds.month
    unfold Fits
    omega
  exact ⟨week, month, isWeek, isMonth, number, namesWeek, checked_eq.mpr ⟨fits, rfl⟩, namesMonth⟩

theorem items_of (fields : Fields a_value date hour minute second) {n : Int}
    (hasWeek : Has a_value 6 n) :
    ¬a_value.length < 7 ∧ ∃ y mo d ho mi w,
      (item a_value 0 = .ok y ∧ item a_value 1 = .ok mo ∧ item a_value 2 = .ok d ∧
        item a_value 3 = .ok ho ∧ item a_value 4 = .ok mi ∧ item a_value 6 = .ok w) ∧
      y.toInt = date.year ∧ mo.toInt = date.month ∧ d.toInt = date.day ∧ ho.toInt = hour ∧
        mi.toInt = minute ∧ w.toInt = n := by
  obtain ⟨y, readYear, isYear⟩ := item_of fields.hasYear
  obtain ⟨mo, readMonth, isMonth⟩ := item_of fields.hasMonth
  obtain ⟨d, readDay, isDay⟩ := item_of fields.hasDay
  obtain ⟨ho, readHour, isHour⟩ := item_of fields.hasHour
  obtain ⟨mi, readMinute, isMinute⟩ := item_of fields.hasMinute
  obtain ⟨w, readWeek, isWeek⟩ := item_of hasWeek
  obtain ⟨_, found, -⟩ := hasWeek
  obtain ⟨inside, -⟩ := List.getElem?_eq_some_iff.mp found
  exact ⟨Nat.not_lt.mpr inside, y, mo, d, ho, mi, w,
    ⟨readYear, readMonth, readDay, readHour, readMinute, readWeek⟩,
    isYear, isMonth, isDay, isHour, isMinute, isWeek⟩

theorem formatRfc2822_of (fields : Fields a_value date hour minute second) {n : Int}
    (weekday : IsWeekday date n) (hasWeek : Has a_value 6 n) {a_offset : Word} {sign : Char}
    {h m : Nat} (zones : zone a_offset = .ok (sign, h, m)) (hours : h < 100) (minutes : m < 100) :
    ∃ week month, IsName week ∧ IsName month ∧ monthNameToNumber month = date.month ∧
      formatRfc2822 a_value a_offset = .ok (dateText 0 week month date hour minute
        (':' :: (integerText 2 second ++
          ' ' :: (sign :: (integerText 2 h ++ integerText 2 m))))) := by
  have bounds := fields.bounds
  obtain ⟨week, month, isWeek, isMonth, number, namesWeek, before, namesMonth⟩ :=
    names_of fields weekday
  obtain ⟨long, y, mo, d, ho, mi, w,
    ⟨readYear, readMonth, readDay, readHour, readMinute, readWeek⟩,
    isYear, isMonth', isDay, isHour, isMinute, isWeek'⟩ := items_of fields hasWeek
  refine ⟨week, month, isWeek, isMonth, number, ?_⟩
  unfold formatRfc2822
  rw [if_neg long, readYear, readMonth, readDay, readHour, readMinute, fields.floor, readWeek]
  simp only [bind, Except.bind, zones, isYear, isMonth', isDay, isHour, isMinute, isWeek',
    namesWeek, before, namesMonth]
  have tail : [[':'], integerText 2 second, [' ', sign], integerText 2 (h : Int),
      integerText 2 (m : Int)].flatten =
      ':' :: (integerText 2 second ++ ' ' :: (sign :: (integerText 2 h ++ integerText 2 m))) := by
    simp
  rw [flatten_dateText, tail, instantiate_fits]
  apply Nat.lt_of_le_of_lt (dateText_length bounds isWeek isMonth (Nat.zero_le 2))
  simp only [List.length_cons, List.length_append,
    integerText_width bounds.second.1 bounds.second.2 (by decide),
    integerText_width (Int.natCast_nonneg h) (by omega : (h : Int) < 10 ^ 2) (by decide),
    integerText_width (Int.natCast_nonneg m) (by omega : (m : Int) < 10 ^ 2) (by decide)]
  omega

def dateFields (date : Date) (hour minute : Int) : List (Value F O) :=
  [integer date.year, integer date.month, integer date.day, integer hour, integer minute]

theorem rfc2822End_of {second : Int} (low : 0 ≤ second) (high : second < 10 ^ 2)
    {zone : List Char} (word : ∀ c ∈ zone, isSpace c = false) (length : zone.length = 5) :
    rfc2822End F (':' :: (integerText 2 second ++ ' ' :: zone)) = .ok (second, zone) := by
  have nonempty : zone ≠ [] := by
    intro empty
    rw [empty] at length
    cases length
  have last (total : Nat) : scan (F := F) (Textual.point F) Textual.ofDecimal Textual.other total
      [.space, .word 5] (' ' :: (zone ++ [])) = [.text zone] :=
    scan_space_word word nonempty (.inl length)
  rw [List.append_nil] at last
  unfold rfc2822End swscanf Formatted.swscanf
  simp only
  rw [scan_integerText low high (by decide) (by decide) (by simp), last]

theorem isSpace_integerText {k : Int} (low : 0 ≤ k) :
    ∀ c ∈ integerText padding k, isSpace c = false := by
  obtain ⟨n, rfl⟩ := Int.eq_ofNat_of_zero_le low
  intro c member
  have digits : Digits (integerText padding (n : Int)) n := integerText_digits
  exact isSpace_digit (digits.digits c member)

theorem century_eq {year : Int} (low : 1000 ≤ year) : century year = year := by
  unfold century
  rw [if_neg (by omega), if_neg (by omega)]

theorem rfc2822_round_trip (fields : Fields a_value date hour minute second) {n : Int}
    (weekday : IsWeekday date n) (hasWeek : Has a_value 6 n) {a_offset : Word}
    (whole : WholeMinutes a_offset.toInt) :
    ∃ text, formatRfc2822 a_value a_offset = .ok text ∧
      parseRfc2822 text = .ok (dateFields date hour minute ++
        [integer second, integer a_offset.toInt] : List (Value F O)) := by
  obtain ⟨sign, h, m, zones, signs, hours, minutes, offset, -⟩ := zone_of whole
  obtain ⟨week, month, isWeek, isMonth, number, text⟩ :=
    formatRfc2822_of fields weekday hasWeek zones hours minutes
  have bounds := fields.bounds
  refine ⟨_, text, ?_⟩
  obtain ⟨printed, word⟩ := sign_clean signs
  have isZone : ∀ c ∈ sign :: (integerText 2 (h : Int) ++ integerText 2 (m : Int)),
      isSpace c = false :=
    List.forall_mem_cons.mpr ⟨word, List.forall_mem_append.mpr
      ⟨isSpace_integerText (Int.natCast_nonneg h), isSpace_integerText (Int.natCast_nonneg m)⟩⟩
  have length : (sign :: (integerText 2 (h : Int) ++ integerText 2 (m : Int))).length = 5 := by
    simp only [List.length_cons, List.length_append,
      integerText_width (Int.natCast_nonneg h) (by omega : (h : Int) < 10 ^ 2) (by decide),
      integerText_width (Int.natCast_nonneg m) (by omega : (m : Int) < 10 ^ 2) (by decide)]
  have plain : Plain (sign :: (integerText 2 (h : Int) ++ integerText 2 (m : Int))) :=
    plain_cons printed (plain_append (plain_integerText (Int.natCast_nonneg h))
      (plain_integerText (Int.natCast_nonneg m)))
  have plain' : Plain (':' :: (integerText 2 second ++ ' ' ::
      (sign :: (integerText 2 (h : Int) ++ integerText 2 (m : Int))))) := by
    apply plain_cons (by decide)
    apply plain_append (plain_integerText bounds.second.1)
    exact plain_cons (by decide) plain
  unfold parseRfc2822
  simp only [cString_plain (plain_dateText bounds isWeek isMonth plain')]
  unfold swscanf Formatted.swscanf rfc2822Start
  rw [scan_dateText bounds isWeek isMonth (Nat.zero_le 2) (by simp), scan, scan]
  simp only [number, drop_dateText, rfc2822End_of bounds.second.1 bounds.second.2 isZone length]
  rw [if_neg (by have := fields.valid.month_low; omega)]
  simp only [bind, Except.bind, offset, century_eq fields.year.1]
  rfl

theorem formatHttp_of (fields : Fields a_value date hour minute second) {n : Int}
    (weekday : IsWeekday date n) (hasWeek : Has a_value 6 n) :
    ∃ week month, IsName week ∧ IsName month ∧ monthNameToNumber month = date.month ∧
      formatHttp a_value = .ok (dateText 2 week month date hour minute
        (':' :: (integerText 2 second ++ [' ', 'G', 'M', 'T']))) := by
  have bounds := fields.bounds
  obtain ⟨week, month, isWeek, isMonth, number, namesWeek, before, namesMonth⟩ :=
    names_of fields weekday
  obtain ⟨long, y, mo, d, ho, mi, w,
    ⟨readYear, readMonth, readDay, readHour, readMinute, readWeek⟩,
    isYear, isMonth', isDay, isHour, isMinute, isWeek'⟩ := items_of fields hasWeek
  refine ⟨week, month, isWeek, isMonth, number, ?_⟩
  unfold formatHttp
  rw [if_neg long, readYear, readMonth, readDay, readHour, readMinute, fields.floor, readWeek]
  simp only [bind, Except.bind, isYear, isMonth', isDay, isHour, isMinute, isWeek', namesWeek,
    before, namesMonth]
  have tail : [[':'], integerText 2 second, [' ', 'G', 'M', 'T']].flatten =
      ':' :: (integerText 2 second ++ [' ', 'G', 'M', 'T']) := by
    simp
  rw [flatten_dateText, tail, instantiate_fits]
  apply Nat.lt_of_le_of_lt (dateText_length bounds isWeek isMonth (Nat.le_refl 2))
  simp only [List.length_cons, List.length_append, List.length_nil,
    integerText_width bounds.second.1 bounds.second.2 (by decide)]
  omega

theorem http_round_trip (fields : Fields a_value date hour minute second) {n : Int}
    (weekday : IsWeekday date n) (hasWeek : Has a_value 6 n) :
    ∃ text, formatHttp a_value = .ok text ∧
      parseHttp text =
        .ok (dateFields date hour minute ++ [integer second] : List (Value F O)) := by
  obtain ⟨week, month, isWeek, isMonth, number, text⟩ := formatHttp_of fields weekday hasWeek
  have bounds := fields.bounds
  refine ⟨_, text, ?_⟩
  have plain : Plain (':' :: (integerText 2 second ++ [' ', 'G', 'M', 'T'])) := by
    apply plain_cons (by decide)
    apply plain_append (plain_integerText bounds.second.1)
    exact plain_of_all (by decide)
  unfold parseHttp
  simp only [cString_plain (plain_dateText bounds isWeek isMonth plain)]
  unfold swscanf Formatted.swscanf http
  rw [scan_dateText bounds isWeek isMonth (Nat.le_refl 2) (by simp), scan_char,
    scan_integerText bounds.second.1 bounds.second.2 (by decide) (by decide) (by simp),
    scan_space (by rintro c ⟨⟩; rfl), scan_char, scan_char, scan_char, scan]
  simp only
  unfold httpFields
  rw [number, if_neg (by have := fields.valid.month_low; omega), century_eq fields.year.1]
  rfl

/-! ### XML Schema -/

def xsdStart (date : Date) (hour minute : Int) (rest : List Char) : List Char :=
  integerText 4 date.year ++ '-' :: (integerText 2 date.month ++ '-' :: (integerText 2 date.day ++
    'T' :: (integerText 2 hour ++ ':' :: (integerText 2 minute ++ ':' :: rest))))

theorem xsdStart_length (bounds : Bounds date hour minute second) :
    (xsdStart date hour minute rest).length = 17 + rest.length := by
  unfold xsdStart
  simp only [List.length_append, List.length_cons,
    integerText_width bounds.year.1 bounds.year.2 (by decide),
    integerText_width bounds.month.1 bounds.month.2 (by decide),
    integerText_width bounds.day.1 bounds.day.2 (by decide),
    integerText_width bounds.hour.1 bounds.hour.2 (by decide),
    integerText_width bounds.minute.1 bounds.minute.2 (by decide)]
  omega

theorem plain_xsdStart (bounds : Bounds date hour minute second) (plain : Plain rest) :
    Plain (xsdStart date hour minute rest) := by
  unfold xsdStart
  apply plain_append (plain_integerText bounds.year.1)
  apply plain_cons (by decide)
  apply plain_append (plain_integerText bounds.month.1)
  apply plain_cons (by decide)
  apply plain_append (plain_integerText bounds.day.1)
  apply plain_cons (by decide)
  apply plain_append (plain_integerText bounds.hour.1)
  apply plain_cons (by decide)
  apply plain_append (plain_integerText bounds.minute.1)
  exact plain_cons (by decide) plain

/-- A text that is read as a zone. -/
structure IsZone (text : List Char) (offset : Int) : Prop where
  length : text.length = if offset = 0 then 1 else 6
  word : ∀ c ∈ text, isSpace c = false
  plain : Plain text
  letter : ∀ c ∈ text.head?, c = 'Z' ∨ c = '+' ∨ c = '-'
  offset : zoneToOffset text = offset

theorem formatXsd_of (fields : Fields a_value date hour minute second) {a_offset : Word}
    (a_precision : Word) (whole : WholeMinutes a_offset.toInt) {x : F}
    (read : itemWithFraction a_value 5 = .ok x) :
    ∃ zone, IsZone zone a_offset.toInt ∧ formatXsd a_value a_offset a_precision =
      instantiate (swprintf 30 (xsdStart date hour minute (secondText a_precision x ++ zone))) := by
  obtain ⟨y, readYear, isYear⟩ := item_of fields.hasYear
  obtain ⟨mo, readMonth, isMonth⟩ := item_of fields.hasMonth
  obtain ⟨d, readDay, isDay⟩ := item_of fields.hasDay
  obtain ⟨ho, readHour, isHour⟩ := item_of fields.hasHour
  obtain ⟨mi, readMinute, isMinute⟩ := item_of fields.hasMinute
  obtain ⟨_, found, -⟩ := fields.hasSecond
  obtain ⟨inside, -⟩ := List.getElem?_eq_some_iff.mp found
  have start (zone : List Char) : xsdText y mo d ho mi (secondText a_precision x) zone =
      xsdStart date hour minute (secondText a_precision x ++ zone) := by
    unfold xsdText xsdStart
    rw [isYear, isMonth, isDay, isHour, isMinute]
    simp
  unfold formatXsd
  rw [if_neg (by omega), readYear, readMonth, readDay, readHour, readMinute, read]
  simp only [bind, Except.bind, start]
  by_cases utc : a_offset = 0
  · rw [if_pos utc]
    refine ⟨['Z'], ⟨?_, word_of_all (by decide), plain_of_all (by decide), by simp, ?_⟩, rfl⟩
    · rw [utc]
      rfl
    · rw [utc]
      rfl
  · have other : a_offset.toInt ≠ 0 := by
      intro zero
      exact utc (BitVec.eq_of_toInt_eq zero)
    obtain ⟨sign, h, m, zones, signs, hours, minutes, -, offset⟩ := zone_of whole
    obtain ⟨printed, word⟩ := sign_clean signs
    rw [if_neg utc, zones]
    have text : [[sign], integerText 2 (h : Int), [':'], integerText 2 (m : Int)].flatten =
        sign :: (integerText 2 h ++ ':' :: integerText 2 m) := by
      simp
    refine ⟨sign :: (integerText 2 h ++ ':' :: integerText 2 m), ⟨?_, ?_, ?_, ?_, offset⟩, ?_⟩
    · rw [if_neg other]
      simp only [List.length_cons, List.length_append,
        integerText_width (Int.natCast_nonneg h) (by omega : (h : Int) < 10 ^ 2) (by decide),
        integerText_width (Int.natCast_nonneg m) (by omega : (m : Int) < 10 ^ 2) (by decide)]
    · exact List.forall_mem_cons.mpr ⟨word, List.forall_mem_append.mpr
        ⟨isSpace_integerText (Int.natCast_nonneg h), List.forall_mem_cons.mpr
          ⟨by decide, isSpace_integerText (Int.natCast_nonneg m)⟩⟩⟩
    · exact plain_cons printed (plain_append (plain_integerText (Int.natCast_nonneg h))
        (plain_cons (by decide) (plain_integerText (Int.natCast_nonneg m))))
    · intro c member
      rw [List.head?_cons, Option.mem_some_iff] at member
      rw [← member]
      exact .inr signs
    · simp only [text]

def secondLength (precision : Nat) (minus : Bool) (second : Int) : Nat :=
  if precision = 0 then 2 else (if minus ∨ 10 ≤ second then 2 else 1) + 1 + precision

theorem toDigits_second {n : Nat} (small : n ≤ 60) :
    (Nat.toDigits 10 n).length = if 10 ≤ n then 2 else 1 := by
  interval_cases n <;> rfl

theorem signbit_whole {x : F} {n : Nat} (same : value x = some (n : ℚ))
    (negative : Textual.signbit x = true) : n = 0 := by
  by_contra other
  have positive : (0 : ℚ) < n := Nat.cast_pos.mpr (Nat.pos_of_ne_zero other)
  rw [LawfulText.signbit same positive] at negative
  cases negative

theorem secondText_of (fields : Fields a_value date hour minute second) {x : F}
    (same : value x = some (second : ℚ)) (a_precision : Word) :
    secondText a_precision x = fixedText (Textual.point F) 2 (precisionOf a_precision)
        (Textual.signbit x) (second.toNat : ℚ) ∧
      (secondText a_precision x).length =
        secondLength (precisionOf a_precision) (Textual.signbit x) second := by
  obtain ⟨low, high⟩ := fields.seconds
  obtain ⟨n, rfl⟩ := Int.eq_ofNat_of_zero_le low
  have text : secondText a_precision x = fixedText (Textual.point F) 2 (precisionOf a_precision)
      (Textual.signbit x) (n : ℚ) := by
    unfold secondText
    rw [same]
    rfl
  refine ⟨text, ?_⟩
  obtain ⟨whole, -, form, length⟩ :=
    fixedText_natCast (Textual.point F) 2 (precisionOf a_precision) (Textual.signbit x) n
  rw [text, form, List.length_append, List.length_append, length,
    toDigits_second (by omega), zeros_length, signText_length]
  unfold secondLength
  by_cases ten : 10 ≤ n
  · have ten' : (10 : Int) ≤ n := by omega
    have positive : Textual.signbit x = false := by
      cases negative : Textual.signbit x with
      | false => rfl
      | true => exact absurd (signbit_whole same negative) (by omega)
    simp only [positive, if_pos ten, ten', or_true, if_true, Bool.false_eq_true, if_false]
    split <;> omega
  · have ten' : ¬(10 : Int) ≤ n := by omega
    simp only [if_neg ten, ten', or_false]
    split <;> split <;> omega

/-- There is room for the text of a date in the buffer. -/
def Room (precision : Nat) (minus : Bool) (second offset : Int) : Prop :=
  17 + secondLength precision minus second + (if offset = 0 then 1 else 6) < 30

instance (precision : Nat) (minus : Bool) (second offset : Int) :
    Decidable (Room precision minus second offset) := inferInstanceAs (Decidable (_ < _))

theorem IsZone.ends {zone : List Char} {offset : Int} (isZone : IsZone zone offset)
    {point : Char} (isPoint : IsPoint point) : Ends point zone := by
  have letters (c : Char) (member : c ∈ zone.head?) := isZone.letter c member
  constructor
  · intro c member
    rcases letters c member with rfl | rfl | rfl <;> rfl
  · intro c member
    rcases letters c member with rfl | rfl | rfl
    · exact (isPoint.letter (by decide)).symm
    · exact isPoint.plus.symm
    · exact isPoint.minus.symm
  · intro c member
    rcases letters c member with rfl | rfl | rfl <;> decide

theorem parseXsd_of (fields : Fields a_value date hour minute second) {negative : Bool}
    {precision : Nat} {zone : List Char} {offset : Int} (isZone : IsZone zone offset) :
    parseXsd (xsdStart date hour minute (fixedText (Textual.point F) 2 precision negative
        (second.toNat : ℚ) ++ zone)) =
      .ok (dateFields date hour minute ++ [.float (Textual.ofDecimal negative (second.toNat : ℚ)),
        integer offset] : List (Value F O)) := by
  have bounds := fields.bounds
  have isPoint : IsPoint (Textual.point F) := LawfulText.isPoint
  have plain : Plain (fixedText (Textual.point F) 2 precision negative (second.toNat : ℚ)) := by
    obtain ⟨digits, isDigits, form, -⟩ :=
      fixedText_natCast (Textual.point F) 2 precision negative second.toNat
    rw [form]
    apply plain_append
    · unfold signText
      split <;> exact plain_of_all (by decide)
    · apply plain_append (plain_digits isDigits)
      unfold zeros
      split
      · exact plain_of_all (by decide)
      · apply plain_cons isPoint.character
        intro c member
        rw [List.eq_of_mem_replicate member]
        decide
  have nonempty : zone ≠ [] := by
    intro empty
    have length := isZone.length
    rw [empty] at length
    split at length <;> cases length
  have last (total : Nat) : scan (F := F) (Textual.point F) Textual.ofDecimal Textual.other total
      [.word 6] (zone ++ []) = [.text zone] := by
    apply scan_word isZone.word nonempty
    have length := isZone.length
    right
    split at length
    · exact ⟨by omega, rfl⟩
    · exact ⟨by omega, rfl⟩
  rw [List.append_nil] at last
  unfold parseXsd
  rw [cString_plain (plain_xsdStart bounds (plain_append plain isZone.plain))]
  unfold swscanf Formatted.swscanf xsd xsdStart
  rw [scan_integerText bounds.year.1 (by have := bounds.year.2; omega) (by decide) (by decide)
      (by simp), scan_char,
    scan_integerText bounds.month.1 bounds.month.2 (by decide) (by decide) (by simp), scan_char,
    scan_integerText bounds.day.1 bounds.day.2 (by decide) (by decide) (by simp), scan_char,
    scan_integerText bounds.hour.1 bounds.hour.2 (by decide) (by decide) (by simp), scan_char,
    scan_integerText bounds.minute.1 bounds.minute.2 (by decide) (by decide) (by simp), scan_char,
    scan_double isPoint (isZone.ends isPoint), last]
  simp only [isZone.offset]
  rfl

/-- The text of XML Schema gives back the fields and the offset where there is room. -/
theorem xsd_round_trip (fields : Fields a_value date hour minute second) {a_offset : Word}
    (a_precision : Word) (whole : WholeMinutes a_offset.toInt) {x : F}
    (read : itemWithFraction a_value 5 = .ok x) :
    (∃ (text : List Char) (y : F), formatXsd a_value a_offset a_precision = .ok text ∧
        parseXsd text = .ok (dateFields date hour minute ++
          [.float y, integer a_offset.toInt] : List (Value F O)) ∧
        value y = some (second : ℚ)) ↔
      Room (precisionOf a_precision) (Textual.signbit x) second a_offset.toInt := by
  obtain ⟨x', read', same⟩ := fields.double
  rw [read] at read'
  cases read'
  obtain ⟨zone, isZone, text⟩ := formatXsd_of fields a_precision whole read
  obtain ⟨form, length⟩ := secondText_of fields same a_precision
  have whole_length : (xsdStart date hour minute (secondText a_precision x ++ zone)).length = _ :=
    xsdStart_length fields.bounds
  rw [List.length_append, length, isZone.length] at whole_length
  rw [text]
  constructor
  · intro ⟨result, y, written, _, _⟩
    by_contra long
    rw [instantiate_fails] at written
    · cases written
    · rw [whole_length]
      unfold Room at long
      omega
  · intro room
    refine ⟨_, Textual.ofDecimal (Textual.signbit x) (second.toNat : ℚ), instantiate_fits ?_, ?_,
      ?_⟩
    · rw [whole_length]
      unfold Room at room
      omega
    · rw [form]
      exact parseXsd_of fields isZone
    · obtain ⟨low, -⟩ := fields.seconds
      obtain ⟨n, rfl⟩ := Int.eq_ofNat_of_zero_le low
      rw [Int.cast_natCast] at same ⊢
      rw [Int.toNat_natCast, LawfulText.ofDecimal ⟨x, same⟩]
      split
      · rename_i negative
        rw [signbit_whole same negative]
        simp
      · rfl

variable (F O) in
/-- The texts give back what they are of, that of XML Schema where there is room for it. -/
theorem round_trips :
    (∀ (a_value : List (Value F O)) (date : Date) (hour minute second week : Int)
      (a_offset : Word), Fields a_value date hour minute second → IsWeekday date week →
      Has a_value 6 week → WholeMinutes a_offset.toInt →
      ∃ text, formatRfc2822 a_value a_offset = .ok text ∧
        parseRfc2822 text = .ok (dateFields date hour minute ++
          [integer second, integer a_offset.toInt] : List (Value F O))) ∧
    (∀ (a_value : List (Value F O)) (date : Date) (hour minute second week : Int),
      Fields a_value date hour minute second → IsWeekday date week → Has a_value 6 week →
      ∃ text, formatHttp a_value = .ok text ∧
        parseHttp text =
          .ok (dateFields date hour minute ++ [integer second] : List (Value F O))) ∧
    (∀ (a_value : List (Value F O)) (date : Date) (hour minute second : Int)
      (a_offset a_precision : Word) (x : F), Fields a_value date hour minute second →
      WholeMinutes a_offset.toInt → 0 ≤ a_precision.toInt →
      itemWithFraction a_value 5 = .ok x →
      ((∃ (text : List Char) (y : F), formatXsd a_value a_offset a_precision = .ok text ∧
          parseXsd text = .ok (dateFields date hour minute ++
            [.float y, integer a_offset.toInt] : List (Value F O)) ∧
          value y = some (second : ℚ)) ↔
        Room (precisionOf a_precision) (Textual.signbit x) second a_offset.toInt)) := by
  refine ⟨?_, ?_, ?_⟩
  · intro a_value date hour minute second week a_offset fields weekday hasWeek whole
    exact rfc2822_round_trip fields weekday hasWeek whole
  · intro a_value date hour minute second week fields weekday hasWeek
    exact http_round_trip fields weekday hasWeek
  · intro a_value date hour minute second a_offset a_precision x fields whole _ read
    exact xsd_round_trip fields a_precision whole read

end

/-! ### An instance -/

instance : Textual Int where
  signbit n := decide (n < 0)
  ofDecimal negative q := if negative then -q.num else q.num
  infinite _ := []
  other _ _ := none
  point := '.'

instance : LawfulText Int where
  signbit {x q} same positive := by
    cases same
    exact decide_eq_false (by
      have := Int.cast_pos.mp positive
      omega)
  ofDecimal {negative q} representable := by
    obtain ⟨n, same⟩ := representable
    cases same
    cases negative with
    | false => rfl
    | true => exact congrArg some (Int.cast_neg n)
  isPoint := ⟨by decide, by decide, by decide, by decide⟩

def tuesday : List (Value Int Unit) :=
  [.integer 2014, .integer 2, .integer 18, .integer 21, .integer 31, .integer 41, .integer 2]

theorem tuesday_fields : Fields tuesday ⟨2014, 2, 18⟩ 21 31 41 where
  valid := ⟨by decide, by decide, by decide, by decide⟩
  year := by decide
  hours := by decide
  minutes := by decide
  seconds := by decide
  hasYear := ⟨_, rfl, _, rfl, rfl⟩
  hasMonth := ⟨_, rfl, _, rfl, rfl⟩
  hasDay := ⟨_, rfl, _, rfl, rfl⟩
  hasHour := ⟨_, rfl, _, rfl, rfl⟩
  hasMinute := ⟨_, rfl, _, rfl, rfl⟩
  hasSecond := ⟨_, rfl, .inl ⟨_, rfl, rfl⟩⟩

theorem tuesday_weekday : IsWeekday ⟨2014, 2, 18⟩ 2 :=
  ⟨16119, (Date.days_iff tuesday_fields.valid).mpr (by decide), rfl⟩

/-- Nanoseconds are one character too many. -/
theorem formatXsd_nanoseconds :
    Fields tuesday ⟨2014, 2, 18⟩ 21 31 41 ∧
      ¬∃ (text : List Char) (y : Int), formatXsd tuesday 0 9 = .ok text ∧
        parseXsd text = .ok (dateFields ⟨2014, 2, 18⟩ 21 31 ++
          [.float y, integer (0 : Word).toInt] : List (Value Int Unit)) ∧
        value y = some ((41 : Int) : ℚ) := by
  have whole : WholeMinutes (0 : Word).toInt := by
    unfold WholeMinutes
    decide
  constructor
  · exact tuesday_fields
  · rw [xsd_round_trip tuesday_fields 9 whole rfl]
    decide

theorem round_trips_tuesday :
    (∃ text, formatRfc2822 tuesday (32400 : Word) = .ok text ∧
      parseRfc2822 text = .ok (dateFields ⟨2014, 2, 18⟩ 21 31 ++
        [integer 41, integer 32400] : List (Value Int Unit))) ∧
    (∃ text, formatHttp tuesday = .ok text ∧ parseHttp text =
      .ok (dateFields ⟨2014, 2, 18⟩ 21 31 ++ [integer 41] : List (Value Int Unit))) ∧
    ∃ (text : List Char) (y : Int), formatXsd tuesday (32400 : Word) 3 = .ok text ∧
      parseXsd text = .ok (dateFields ⟨2014, 2, 18⟩ 21 31 ++
        [.float y, integer 32400] : List (Value Int Unit)) ∧ value y = some ((41 : Int) : ℚ) := by
  obtain ⟨mail, http, xsd⟩ := round_trips Int Unit
  have has : Has tuesday 6 2 := ⟨_, rfl, _, rfl, rfl⟩
  have whole : WholeMinutes (32400 : Word).toInt := by
    unfold WholeMinutes
    decide
  refine ⟨?_, ?_, ?_⟩
  · exact mail tuesday _ _ _ _ _ _ tuesday_fields tuesday_weekday has whole
  · exact http tuesday _ _ _ _ _ tuesday_fields tuesday_weekday has
  · exact (xsd tuesday _ _ _ _ _ _ _ tuesday_fields whole (by decide) rfl).mpr (by decide)

end Xemmai.Dates
