import Mathlib

/-!
# Formatted output and input

The conversions of `swprintf` and `swscanf` for integers, words and decimals, of the
standard of C. What a conversion of the one writes the conversion of the other reads,
up to a character that cannot belong to it.
-/

namespace Xemmai.Formatted

set_option autoImplicit false

/-! ### Output -/

def zeroPad (width : Nat) (text : List Char) : List Char :=
  List.replicate (width - text.length) '0' ++ text

/-- `%0{width}d`, or `%d` where the width is zero. -/
def integerText (width : Nat) (n : Int) : List Char :=
  if n < 0 then '-' :: zeroPad (width - 1) (Nat.toDigits 10 n.natAbs)
  else zeroPad width (Nat.toDigits 10 n.natAbs)

/-- The nearest integer of a number that is not negative, the even one of two. -/
def nearest (q : ℚ) : Nat :=
  let n := ⌊q⌋.toNat
  let rest := q - n
  if rest < 1 / 2 ∨ rest = 1 / 2 ∧ n % 2 = 0 then n else n + 1

/-- `%.{precision}f` of a number that is not negative. -/
def fixedDigits (point : Char) (precision : Nat) (q : ℚ) : List Char :=
  let scaled := nearest (q * 10 ^ precision)
  let whole := Nat.toDigits 10 (scaled / 10 ^ precision)
  if precision = 0 then whole
  else whole ++ point :: zeroPad precision (Nat.toDigits 10 (scaled % 10 ^ precision))

/-- `%0{width}.{precision}f` of a number with that sign. -/
def fixedText (point : Char) (width precision : Nat) (negative : Bool) (q : ℚ) : List Char :=
  if negative then '-' :: zeroPad (width - 1) (fixedDigits point precision |q|)
  else zeroPad width (fixedDigits point precision |q|)

/-- `swprintf` fails unless there is room for the text and for what ends it. -/
def swprintf (size : Nat) (text : List Char) : Option (List Char) :=
  if text.length < size then some text else none

/-! ### Input -/

inductive Directive
  /-- White space. -/
  | space
  | char (c : Char)
  /-- `%*{width}ls` -/
  | skipWord (width : Nat)
  /-- `%*l[A-Za-z]` -/
  | skipLetters
  /-- `%{width}ls` -/
  | word (width : Nat)
  /-- `%{width}d` -/
  | integer (width : Nat)
  /-- `%lf` -/
  | double
  /-- `%n` -/
  | count
  deriving DecidableEq, Repr

/-- What a directive assigns. -/
inductive Item (F : Type)
  | text (s : List Char)
  | integer (n : Int)
  | double (x : F)
  | count (n : Nat)
  deriving DecidableEq, Repr

/-- `iswspace` of the locale of C. -/
def isSpace (c : Char) : Bool := c = ' ' || 9 ≤ c.toNat && c.toNat ≤ 13

def sign : List Char → Bool × List Char
  | '-' :: rest => (true, rest)
  | '+' :: rest => (false, rest)
  | s => (false, s)

def readWord (width : Nat) (s : List Char) : Option (List Char × List Char) :=
  let word := (s.take width).takeWhile (!isSpace ·)
  if word.isEmpty then none else some (word, s.drop word.length)

def readLetters (s : List Char) : Option (List Char × List Char) :=
  let letters := s.takeWhile Char.isAlpha
  if letters.isEmpty then none else some (letters, s.drop letters.length)

def readInteger (width : Nat) (s : List Char) : Option (Int × List Char) :=
  let (negative, unsigned) := sign s
  let digits := (unsigned.take (width - (s.length - unsigned.length))).takeWhile Char.isDigit
  let n := Nat.ofDigitChars 10 digits 0
  if digits.isEmpty then none else some (if negative then -n else n, unsigned.drop digits.length)

def readExponent (s : List Char) : Option (Int × List Char) :=
  let (negative, unsigned) := sign s
  let digits := unsigned.takeWhile Char.isDigit
  let n := Nat.ofDigitChars 10 digits 0
  if digits.isEmpty then none else some (if negative then -n else n, unsigned.drop digits.length)

section

variable {F : Type} (point : Char) (ofDecimal : Bool → ℚ → F)
  (other : Bool → List Char → Option (F × List Char))

def readFraction (s : List Char) : List Char × List Char :=
  match s with
  | [] => ([], [])
  | c :: rest =>
      if c = point then
        let fraction := rest.takeWhile Char.isDigit
        (fraction, rest.drop fraction.length)
      else ([], s)

/-- A decimal without its sign; a letter that belongs to an exponent must be followed
by one. -/
def readDecimal (negative : Bool) (s : List Char) : Option (F × List Char) :=
  let whole := s.takeWhile Char.isDigit
  let (fraction, rest) := readFraction point (s.drop whole.length)
  let mantissa : ℚ := Nat.ofDigitChars 10 (whole ++ fraction) 0 / 10 ^ fraction.length
  if (whole ++ fraction).isEmpty then none
  else
    match rest with
    | [] => some (ofDecimal negative mantissa, rest)
    | c :: rest' =>
        if c = 'e' ∨ c = 'E' then
          match readExponent rest' with
          | none => none
          | some (exponent, rest'') => some (ofDecimal negative (mantissa * 10 ^ exponent), rest'')
        else some (ofDecimal negative mantissa, rest)

/-- Hexadecimals, infinities and what is not a number start otherwise. -/
def readDouble (s : List Char) : Option (F × List Char) :=
  let (negative, unsigned) := sign s
  match unsigned with
  | '0' :: 'x' :: _ | '0' :: 'X' :: _ => other negative unsigned
  | c :: _ =>
      if c.isAlpha then other negative unsigned
      else readDecimal point ofDecimal negative unsigned
  | [] => none

/-- What `swscanf` assigns of an input of that length up to the first directive that
fails. Its result is the number of these without those of `%n`. -/
def scan (total : Nat) : List Directive → List Char → List (Item F)
  | [], _ => []
  | .space :: format, s => scan total format (s.dropWhile isSpace)
  | .char c :: format, s =>
      match s with
      | [] => []
      | d :: rest => if c = d then scan total format rest else []
  | .skipWord width :: format, s =>
      match readWord width (s.dropWhile isSpace) with
      | none => []
      | some (_, rest) => scan total format rest
  | .skipLetters :: format, s =>
      match readLetters s with
      | none => []
      | some (_, rest) => scan total format rest
  | .word width :: format, s =>
      match readWord width (s.dropWhile isSpace) with
      | none => []
      | some (word, rest) => .text word :: scan total format rest
  | .integer width :: format, s =>
      match readInteger width (s.dropWhile isSpace) with
      | none => []
      | some (n, rest) => .integer n :: scan total format rest
  | .double :: format, s =>
      match readDouble point ofDecimal other (s.dropWhile isSpace) with
      | none => []
      | some (x, rest) => .double x :: scan total format rest
  | .count :: format, s => .count (total - s.length) :: scan total format s

/-- `swscanf` -/
def swscanf (format : List Directive) (s : List Char) : List (Item F) :=
  scan point ofDecimal other s.length format s

end

/-! ### Digits -/

structure Digits (text : List Char) (n : Nat) : Prop where
  digits : ∀ c ∈ text, c.isDigit = true
  nonempty : text ≠ []
  number : Nat.ofDigitChars 10 text 0 = n

theorem digits_toDigits (n : Nat) : Digits (Nat.toDigits 10 n) n where
  digits _ member := Nat.isDigit_of_mem_toDigits (by decide) (by decide) member
  nonempty := Nat.toDigits_ne_nil
  number := Nat.ofDigitChars_ten_toDigits

variable {text rest : List Char} {n width : Nat}

theorem Digits.replicate (digits : Digits text n) (k : Nat) :
    Digits (List.replicate k '0' ++ text) n where
  digits c member := by
    rw [List.mem_append] at member
    cases member with
    | inl zero => rw [List.eq_of_mem_replicate zero]; rfl
    | inr digit => exact digits.digits c digit
  nonempty := by simp [digits.nonempty]
  number := by
    rw [Nat.ofDigitChars_append, Nat.ofDigitChars_replicate_zero, Nat.mul_zero, digits.number]

theorem Digits.zeroPad (digits : Digits text n) : Digits (zeroPad width text) n :=
  digits.replicate _

theorem zeroPad_length : (zeroPad width text).length = max width text.length := by
  unfold zeroPad
  rw [List.length_append, List.length_replicate]
  omega

theorem integerText_digits : Digits (integerText width n) n := by
  unfold integerText
  rw [if_neg (by omega), Int.natAbs_natCast]
  exact (digits_toDigits n).zeroPad

theorem toDigits_length {k : Nat} (few : n < 10 ^ k) (positive : 0 < k) :
    (Nat.toDigits 10 n).length ≤ k :=
  (Nat.length_toDigits_le_iff (by decide) positive).mpr few

theorem integerText_length {k : Nat} (few : n < 10 ^ k) (positive : 0 < k) :
    (integerText width n).length ≤ max width k := by
  unfold integerText
  rw [if_neg (by omega), Int.natAbs_natCast, zeroPad_length]
  have short := toDigits_length few positive
  omega

theorem integerText_width {k : Int} (low : 0 ≤ k) (high : k < 10 ^ width) (positive : 0 < width) :
    (integerText width k).length = width := by
  obtain ⟨n, rfl⟩ := Int.eq_ofNat_of_zero_le low
  have few : n < 10 ^ width := by exact_mod_cast high
  unfold integerText
  rw [if_neg (by omega), Int.natAbs_natCast, zeroPad_length]
  have short := toDigits_length few positive
  omega

/-! ### What is read -/

theorem isSpace_digit {c : Char} (digit : c.isDigit = true) : isSpace c = false := by
  have bounds : 48 ≤ c.toNat := by
    simp only [Char.isDigit, Bool.and_eq_true, decide_eq_true_eq] at digit
    exact digit.1
  have other : c ≠ ' ' := by
    intro same
    rw [same] at digit
    cases digit
  simp [isSpace, other]
  omega

theorem isAlpha_digit {c : Char} (digit : c.isDigit = true) : c.isAlpha = false := by
  have high : c.toNat ≤ 57 := by
    simp only [Char.isDigit, Bool.and_eq_true, decide_eq_true_eq] at digit
    exact digit.2
  simp only [Char.isAlpha, Char.isUpper, Char.isLower, Bool.or_eq_false_iff,
    ← Bool.decide_and, decide_eq_false_iff_not]
  change ¬(65 ≤ c.toNat ∧ c.toNat ≤ 90) ∧ ¬(97 ≤ c.toNat ∧ c.toNat ≤ 122)
  omega

theorem sign_digit {c : Char} (digit : c.isDigit = true) (s : List Char) :
    sign (c :: s) = (false, c :: s) := by
  unfold sign
  split
  · rename_i same
    cases same
    cases digit
  · rename_i same
    cases same
    cases digit
  · rfl

theorem takeWhile_digits (digits : ∀ c ∈ text, c.isDigit = true)
    (stops : ∀ c ∈ rest.head?, c.isDigit = false) :
    (text ++ rest).takeWhile Char.isDigit = text := by
  rw [List.takeWhile_append_of_pos digits]
  cases rest with
  | nil => simp
  | cons c rest =>
      rw [List.takeWhile_cons_of_neg, List.append_nil]
      rw [stops c (by simp)]
      decide

theorem takeWhile_take (digits : ∀ c ∈ text, c.isDigit = true) (short : text.length ≤ width)
    (stops : ∀ c ∈ rest.head?, c.isDigit = false) :
    ((text ++ rest).take width).takeWhile Char.isDigit = text := by
  rw [List.take_append, List.take_of_length_le short]
  apply takeWhile_digits digits
  intro c member
  rw [List.head?_take] at member
  split at member
  · cases member
  · exact stops c member

theorem Digits.start (digits : Digits text n) :
    ∃ c s, text = c :: s ∧ c.isDigit = true := by
  cases text with
  | nil => exact absurd rfl digits.nonempty
  | cons c s => exact ⟨c, s, rfl, digits.digits c (by simp)⟩

theorem Digits.skip (digits : Digits text n) :
    (text ++ rest).dropWhile isSpace = text ++ rest := by
  obtain ⟨c, s, rfl, digit⟩ := digits.start
  rw [List.cons_append, List.dropWhile_cons_of_neg]
  rw [isSpace_digit digit]
  decide

theorem Digits.sign (digits : Digits text n) :
    Formatted.sign (text ++ rest) = (false, text ++ rest) := by
  obtain ⟨c, s, rfl, digit⟩ := digits.start
  exact sign_digit digit _

theorem readInteger_digits (digits : Digits text n) (short : text.length ≤ width)
    (stops : ∀ c ∈ rest.head?, c.isDigit = false) :
    readInteger width (text ++ rest) = some ((n : Int), rest) := by
  unfold readInteger
  rw [digits.sign]
  simp only [Nat.sub_self, Nat.sub_zero]
  rw [takeWhile_take digits.digits short stops, digits.number]
  rw [if_neg (by simp [digits.nonempty])]
  simp

section

variable {F : Type} {point : Char} {ofDecimal : Bool → ℚ → F}
  {other : Bool → List Char → Option (F × List Char)} {total : Nat} {format : List Directive}

attribute [local simp] scan

@[simp] theorem scan_char (c : Char) (s : List Char) :
    scan point ofDecimal other total (.char c :: format) (c :: s) =
      scan point ofDecimal other total format s := by
  simp

theorem scan_integer (digits : Digits text n) (short : text.length ≤ width)
    (stops : ∀ c ∈ rest.head?, c.isDigit = false) :
    scan point ofDecimal other total (.integer width :: format) (text ++ rest) =
      .integer n :: scan point ofDecimal other total format rest := by
  rw [scan, digits.skip, readInteger_digits digits short stops]

theorem scan_space {s : List Char} (stops : ∀ c ∈ s.head?, isSpace c = false) :
    scan point ofDecimal other total (.space :: format) (' ' :: s) =
      scan point ofDecimal other total format s := by
  rw [scan, List.dropWhile_cons_of_pos (by decide)]
  cases s with
  | nil => rfl
  | cons c s =>
      rw [List.dropWhile_cons_of_neg]
      rw [stops c (by simp)]
      decide

variable {padding : Nat} {k : Int}

theorem scan_integerText (low : 0 ≤ k) (high : k < 10 ^ width) (positive : 0 < width)
    (padded : padding ≤ width) (stops : ∀ c ∈ rest.head?, c.isDigit = false) :
    scan point ofDecimal other total (.integer width :: format)
        (integerText padding k ++ rest) =
      .integer k :: scan point ofDecimal other total format rest := by
  obtain ⟨n, rfl⟩ := Int.eq_ofNat_of_zero_le low
  have few : n < 10 ^ width := by exact_mod_cast high
  have short : (integerText padding (n : Int)).length ≤ max padding width :=
    integerText_length few positive
  exact scan_integer integerText_digits (by omega) stops

theorem scan_space_integerText (low : 0 ≤ k) (high : k < 10 ^ width) (positive : 0 < width)
    (padded : padding ≤ width) (stops : ∀ c ∈ rest.head?, c.isDigit = false) :
    scan point ofDecimal other total (.space :: .integer width :: format)
        (' ' :: (integerText padding k ++ rest)) =
      .integer k :: scan point ofDecimal other total format rest := by
  rw [scan_space, scan_integerText low high positive padded stops]
  obtain ⟨n, rfl⟩ := Int.eq_ofNat_of_zero_le low
  have digits : Digits (integerText padding (n : Int)) n := integerText_digits
  obtain ⟨c, s, text, digit⟩ := digits.start
  rw [text]
  intro d member
  rw [List.cons_append, List.head?_cons, Option.mem_some_iff] at member
  rw [← member]
  exact isSpace_digit digit

theorem readWord_of (word : ∀ c ∈ text, isSpace c = false) (nonempty : text ≠ [])
    (short : text.length = width ∨ text.length ≤ width ∧ rest = []) :
    readWord width (text ++ rest) = some (text, rest) := by
  have taken : (text ++ rest).take width = text := by
    cases short with
    | inl same => rw [← same, List.take_left]
    | inr short =>
        obtain ⟨short, rfl⟩ := short
        rw [List.append_nil, List.take_of_length_le short]
  have whole : text.takeWhile (!isSpace ·) = text := by
    rw [List.takeWhile_eq_self_iff]
    intro c member
    rw [word c member]
    rfl
  unfold readWord
  rw [taken]
  simp only [whole]
  rw [if_neg (by simp [nonempty]), List.drop_left]

theorem skip_word (word : ∀ c ∈ text, isSpace c = false) (nonempty : text ≠ []) :
    (text ++ rest).dropWhile isSpace = text ++ rest := by
  cases text with
  | nil => exact absurd rfl nonempty
  | cons c s =>
      rw [List.cons_append, List.dropWhile_cons_of_neg]
      rw [word c (by simp)]
      decide

theorem scan_word (word : ∀ c ∈ text, isSpace c = false) (nonempty : text ≠ [])
    (short : text.length = width ∨ text.length ≤ width ∧ rest = []) :
    scan point ofDecimal other total (.word width :: format) (text ++ rest) =
      .text text :: scan point ofDecimal other total format rest := by
  rw [scan, skip_word word nonempty, readWord_of word nonempty short]

theorem scan_space_word (word : ∀ c ∈ text, isSpace c = false) (nonempty : text ≠ [])
    (short : text.length = width ∨ text.length ≤ width ∧ rest = []) :
    scan point ofDecimal other total (.space :: .word width :: format) (' ' :: (text ++ rest)) =
      .text text :: scan point ofDecimal other total format rest := by
  rw [scan_space, scan_word word nonempty short]
  cases text with
  | nil => exact absurd rfl nonempty
  | cons c s =>
      intro d member
      rw [List.cons_append, List.head?_cons, Option.mem_some_iff] at member
      rw [← member]
      exact word c (by simp)

theorem scan_skipWord (word : ∀ c ∈ text, isSpace c = false) (nonempty : text ≠ [])
    (short : text.length = width ∨ text.length ≤ width ∧ rest = []) :
    scan point ofDecimal other total (.skipWord width :: format) (text ++ rest) =
      scan point ofDecimal other total format rest := by
  rw [scan, skip_word word nonempty, readWord_of word nonempty short]

end

/-! ### Whole numbers as decimals -/

theorem nearest_natCast (n : Nat) : nearest (n : ℚ) = n := by
  unfold nearest
  rw [show ((n : ℚ) = ((n : Int) : ℚ)) from rfl, Int.floor_intCast]
  simp

def zeros (point : Char) (precision : Nat) : List Char :=
  if precision = 0 then [] else point :: List.replicate precision '0'

theorem zeros_length (point : Char) (precision : Nat) :
    (zeros point precision).length = if precision = 0 then 0 else precision + 1 := by
  unfold zeros
  split <;> simp

theorem fixedDigits_natCast (point : Char) (precision n : Nat) :
    fixedDigits point precision n = Nat.toDigits 10 n ++ zeros point precision := by
  have scaled : nearest ((n : ℚ) * 10 ^ precision) = n * 10 ^ precision := by
    rw [← nearest_natCast (n * 10 ^ precision)]
    push_cast
    rfl
  have positive : 0 < 10 ^ precision := Nat.pow_pos (by decide)
  unfold fixedDigits zeros
  rw [scaled]
  simp only [Nat.mul_div_cancel _ positive, Nat.mul_mod_left]
  split
  · simp
  · rename_i some_
    have padded : zeroPad precision (Nat.toDigits 10 0) = List.replicate precision '0' := by
      unfold zeroPad
      rw [Nat.toDigits_zero, List.length_singleton]
      change List.replicate (precision - 1) '0' ++ List.replicate 1 '0' = _
      rw [List.replicate_append_replicate]
      congr 1
      omega
    rw [padded]

/-- What may follow a number: not what could go on with it. -/
structure Ends (point : Char) (rest : List Char) : Prop where
  digit : ∀ c ∈ rest.head?, c.isDigit = false
  point : ∀ c ∈ rest.head?, c ≠ point
  letter : ∀ c ∈ rest.head?, c ≠ 'e' ∧ c ≠ 'E' ∧ c ≠ 'x' ∧ c ≠ 'X'

/-- A decimal point is not a part of a number otherwise. -/
structure IsPoint (point : Char) : Prop where
  other : point.isAlphanum = false
  plus : point ≠ '+'
  minus : point ≠ '-'
  character : point ≠ '\x00'

section

variable {F : Type} {point : Char} {ofDecimal : Bool → ℚ → F}
  {other : Bool → List Char → Option (F × List Char)} {negative : Bool} {precision : Nat}

theorem IsPoint.digit (isPoint : IsPoint point) : point.isDigit = false := by
  have either := isPoint.other
  unfold Char.isAlphanum at either
  rw [Bool.or_eq_false_iff] at either
  exact either.2

theorem IsPoint.letter (isPoint : IsPoint point) {c : Char} (alphanum : c.isAlphanum = true) :
    point ≠ c := by
  intro same
  rw [← same, isPoint.other] at alphanum
  cases alphanum

theorem zeros_stop (isPoint : IsPoint point) (ends : Ends point rest) :
    ∀ c ∈ (zeros point precision ++ rest).head?, c.isDigit = false := by
  unfold zeros
  split
  · exact ends.digit
  · intro c member
    rw [List.cons_append, List.head?_cons, Option.mem_some_iff] at member
    rw [← member]
    exact isPoint.digit

theorem readFraction_zeros (ends : Ends point rest) :
    readFraction point (zeros point precision ++ rest) =
      (List.replicate precision '0', rest) := by
  unfold zeros
  split
  · rename_i none_
    rw [none_, List.nil_append]
    cases rest with
    | nil => rfl
    | cons c rest =>
        unfold readFraction
        simp only
        rw [if_neg (ends.point c (by simp))]
        rfl
  · unfold readFraction
    rw [List.cons_append]
    simp only
    have digits : ∀ c ∈ List.replicate precision '0', c.isDigit = true := by
      intro c member
      rw [List.eq_of_mem_replicate member]
      rfl
    rw [if_pos trivial, takeWhile_digits digits ends.digit, List.drop_left]

theorem readDecimal_zeros (isPoint : IsPoint point) (digits : Digits text n)
    (ends : Ends point rest) :
    readDecimal point ofDecimal negative (text ++ (zeros point precision ++ rest)) =
      some (ofDecimal negative n, rest) := by
  have number : ((Nat.ofDigitChars 10 (text ++ List.replicate precision '0') 0 : Nat) : ℚ) /
      10 ^ (List.replicate precision '0').length = n := by
    rw [Nat.ofDigitChars_append, Nat.ofDigitChars_replicate_zero, digits.number,
      List.length_replicate]
    push_cast
    field_simp
  unfold readDecimal
  rw [takeWhile_digits digits.digits (zeros_stop isPoint ends)]
  simp only [List.drop_left, readFraction_zeros ends, number]
  rw [if_neg (by simp [digits.nonempty])]
  cases rest with
  | nil => rfl
  | cons c rest =>
      simp only
      obtain ⟨lower, upper, -, -⟩ := ends.letter c (by simp)
      rw [if_neg (by simp [lower, upper])]

theorem zeros_head (isPoint : IsPoint point) (ends : Ends point rest) :
    ∀ c ∈ (zeros point precision ++ rest).head?, c ≠ 'x' ∧ c ≠ 'X' := by
  unfold zeros
  split
  · intro c member
    exact (ends.letter c member).2.2
  · intro c member
    rw [List.cons_append, List.head?_cons, Option.mem_some_iff] at member
    rw [← member]
    exact ⟨isPoint.letter (by decide), isPoint.letter (by decide)⟩

theorem readDouble_zeros (isPoint : IsPoint point) (digits : Digits text n)
    (ends : Ends point rest) {s : List Char}
    (signed : sign s = (negative, text ++ (zeros point precision ++ rest))) :
    readDouble point ofDecimal other s = some (ofDecimal negative n, rest) := by
  have decimal : readDecimal point ofDecimal negative (text ++ (zeros point precision ++ rest)) =
      some (ofDecimal negative n, rest) := readDecimal_zeros isPoint digits ends
  have later : ∀ c ∈ (text.tail ++ (zeros point precision ++ rest)).head?, c ≠ 'x' ∧ c ≠ 'X' := by
    cases tail : text.tail with
    | nil => exact zeros_head isPoint ends
    | cons d tail' =>
        intro c member
        rw [List.cons_append, List.head?_cons, Option.mem_some_iff] at member
        have digit := digits.digits d (List.mem_of_mem_tail (by simp [tail]))
        rw [member] at digit
        constructor
        · intro same
          rw [same] at digit
          cases digit
        · intro same
          rw [same] at digit
          cases digit
  obtain ⟨c, tail, rfl, digit⟩ := digits.start
  rw [List.tail_cons] at later
  unfold readDouble
  rw [signed]
  simp only [List.cons_append]
  split
  · rename_i same
    exact absurd rfl (later 'x' (by rw [(List.cons.inj same).2]; rfl)).1
  · rename_i same
    exact absurd rfl (later 'X' (by rw [(List.cons.inj same).2]; rfl)).2
  · rename_i same
    obtain ⟨rfl, rfl⟩ := List.cons.inj same
    rw [isAlpha_digit digit]
    exact decimal
  · rename_i same
    cases same

def signText (negative : Bool) : List Char := if negative then ['-'] else []

theorem signText_length (negative : Bool) :
    (signText negative).length = if negative then 1 else 0 := by
  cases negative <;> rfl

theorem fixedText_natCast (point : Char) (width precision : Nat) (negative : Bool) (n : Nat) :
    ∃ whole, Digits whole n ∧
      fixedText point width precision negative n =
        signText negative ++ (whole ++ zeros point precision) ∧
      whole.length + (zeros point precision).length =
        max (width - (signText negative).length)
          ((Nat.toDigits 10 n).length + (zeros point precision).length) := by
  have same : |(n : ℚ)| = n := abs_of_nonneg (Nat.cast_nonneg n)
  unfold fixedText
  rw [same, fixedDigits_natCast]
  have padded (w : Nat) : ∃ k, zeroPad w (Nat.toDigits 10 n ++ zeros point precision) =
      (List.replicate k '0' ++ Nat.toDigits 10 n) ++ zeros point precision := by
    unfold zeroPad
    rw [← List.append_assoc]
    exact ⟨_, rfl⟩
  obtain ⟨k, text⟩ := padded (width - (signText negative).length)
  refine ⟨List.replicate k '0' ++ Nat.toDigits 10 n, (digits_toDigits n).replicate k, ?_, ?_⟩
  · rw [← text]
    cases negative <;> rfl
  · rw [← List.length_append, ← text, zeroPad_length, List.length_append]

theorem scan_double {total : Nat} {format : List Directive} (isPoint : IsPoint point)
    (ends : Ends point rest) :
    scan point ofDecimal other total (.double :: format)
        (fixedText point width precision negative n ++ rest) =
      .double (ofDecimal negative n) :: scan point ofDecimal other total format rest := by
  obtain ⟨whole, digits, text, -⟩ := fixedText_natCast point width precision negative n
  have signed : sign (signText negative ++ (whole ++ (zeros point precision ++ rest))) =
      (negative, whole ++ (zeros point precision ++ rest)) := by
    cases negative with
    | false => exact digits.sign
    | true => rfl
  have skips : (signText negative ++ (whole ++ (zeros point precision ++ rest))).dropWhile isSpace =
      signText negative ++ (whole ++ (zeros point precision ++ rest)) := by
    cases negative with
    | false => exact digits.skip
    | true => rfl
  rw [text, List.append_assoc, List.append_assoc, scan, skips,
    readDouble_zeros isPoint digits ends signed]

end

end Xemmai.Formatted
