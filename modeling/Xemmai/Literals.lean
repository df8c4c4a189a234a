import Mathlib
import Xemmai.Compile
import Xemmai.Formatted
import Xemmai.Lexer
import Xemmai.Precedence

/-!
# Integer literals

What the lexer makes of the digits of an integer, and what becomes of the signs that the
parser and the emitter apply to it.
-/

namespace Xemmai

set_option autoImplicit false

namespace Lexer

section

variable {standard : Standard} {rest : List Char}

/-! ### What numbers are -/

theorem value_cons (base : Nat) (c : Char) (digits : List Char) :
    value base (c :: digits) = base ^ digits.length * digitValue c + value base digits := by
  unfold value
  rw [List.map_cons, Nat.ofDigits_reverse_cons, List.length_map, Nat.add_comm]

theorem isDigit_iff {c : Char} : c.isDigit = true ↔ 48 ≤ c.toNat ∧ c.toNat ≤ 57 := by
  simp only [Char.isDigit, Bool.and_eq_true, decide_eq_true_eq, ge_iff_le]
  exact Iff.rfl

theorem isXdigit_iff {c : Char} : isXdigit c = true ↔ 48 ≤ c.toNat ∧ c.toNat ≤ 57 ∨
    97 ≤ c.toNat ∧ c.toNat ≤ 102 ∨ 65 ≤ c.toNat ∧ c.toNat ≤ 70 := by
  simp only [isXdigit, Bool.or_eq_true, isDigit_iff, Bool.and_eq_true, decide_eq_true_eq, or_assoc]
  exact Iff.rfl

theorem digitValue_digit {c : Char} (digit : c.isDigit = true) :
    digitValue c = c.toNat - 48 := if_pos digit

theorem hexDigit_eq {c : Char} (digit : isXdigit c = true) :
    hexDigit c = BitVec.ofNat 64 (digitValue c) := by
  have code : digitValue c = if c.toNat ≤ 57 then c.toNat - 48
      else if 97 ≤ c.toNat then c.toNat - 97 + 10 else c.toNat - 65 + 10 := by
    have low : 48 ≤ c.toNat := by
      have bounds := isXdigit_iff.mp digit
      omega
    unfold digitValue
    simp only [isDigit_iff, low, true_and]
    rfl
  have bounds := isXdigit_iff.mp digit
  rw [hexDigit, code]
  generalize c.toNat = n at bounds
  obtain ⟨low, high⟩ | ⟨low, high⟩ | ⟨low, high⟩ : (48 ≤ n ∧ n ≤ 57) ∨ (97 ≤ n ∧ n ≤ 102) ∨
      (65 ≤ n ∧ n ≤ 70) := by omega
  all_goals interval_cases n <;> rfl

theorem octDigit_eq {c : Char} (digit : c.isDigit = true) :
    (BitVec.ofNat 32 c.toNat - 48).setWidth 64 = BitVec.ofNat 64 (digitValue c) := by
  rw [digitValue_digit digit]
  have bounds := isDigit_iff.mp digit
  bv_omega

theorem mask_eq (integer : Word) : mask integer = BitVec.ofNat 64 (integer.toNat % 2 ^ 63) := by
  apply BitVec.eq_of_toNat_eq
  have low := Nat.and_two_pow_sub_one_eq_mod integer.toNat 63
  have bound : integer.toNat % 2 ^ 63 < 2 ^ 64 :=
    (Nat.mod_lt _ (by decide)).trans (by decide)
  rw [BitVec.toNat_ofNat, Nat.mod_eq_of_lt bound, ← low]
  rfl

theorem accumulate (base : Nat) (integer : Word) (c : Char) (digits : List Char) :
    (integer * BitVec.ofNat 64 base + BitVec.ofNat 64 (digitValue c)) *
        BitVec.ofNat 64 (base ^ digits.length) + BitVec.ofNat 64 (value base digits) =
      integer * BitVec.ofNat 64 (base ^ (c :: digits).length) +
        BitVec.ofNat 64 (value base (c :: digits)) := by
  rw [value_cons, List.length_cons, pow_succ, Nat.mul_comm _ base, BitVec.ofNat_add,
    BitVec.ofNat_mul, BitVec.ofNat_mul]
  ring

theorem hexDigits_eq (integer : Word) {digits : List Char}
    (all : ∀ c ∈ digits, isXdigit c = true) (ends : ∀ c ∈ rest.head?, isXdigit c = false) :
    hexDigits integer (digits ++ rest) = (integer * BitVec.ofNat 64 (16 ^ digits.length) +
      BitVec.ofNat 64 (value 16 digits), rest) := by
  induction digits generalizing integer with
  | nil =>
      have same : integer * BitVec.ofNat 64 (16 ^ 0) + BitVec.ofNat 64 (value 16 []) = integer := by
        change integer * 1 + 0 = integer
        ring
      rw [List.length_nil, same, List.nil_append]
      cases rest with
      | nil => rfl
      | cons c rest =>
          have other : isXdigit c = false := ends c rfl
          rw [hexDigits, other]
          rfl
  | cons c digits induction =>
      have digit : isXdigit c = true := all c List.mem_cons_self
      rw [List.cons_append, hexDigits, digit, if_pos rfl,
        induction _ fun d among => all d (List.mem_cons_of_mem _ among), hexDigit_eq digit]
      exact congrArg (·, rest) (accumulate 16 integer c digits)

theorem octDigits_eq (integer : Word) {digits : List Char}
    (all : ∀ c ∈ digits, c.isDigit = true) (ends : ∀ c ∈ rest.head?, c.isDigit = false) :
    octDigits integer (digits ++ rest) =
      if ∀ c ∈ digits, c < '8' then
        some (integer * BitVec.ofNat 64 (8 ^ digits.length) + BitVec.ofNat 64 (value 8 digits),
          rest)
      else none := by
  induction digits generalizing integer with
  | nil =>
      have same : integer * BitVec.ofNat 64 (8 ^ 0) + BitVec.ofNat 64 (value 8 []) = integer := by
        change integer * 1 + 0 = integer
        ring
      rw [if_pos (by simp), List.length_nil, same, List.nil_append]
      cases rest with
      | nil => rfl
      | cons c rest =>
          have other : c.isDigit = false := ends c rfl
          rw [octDigits, other]
          rfl
  | cons c digits induction =>
      have digit : c.isDigit = true := all c List.mem_cons_self
      rw [List.cons_append, octDigits, digit, if_pos rfl]
      by_cases high : '8' ≤ c
      · have some_ : ¬∀ d ∈ c :: digits, d < '8' := fun low =>
          absurd (low c List.mem_cons_self) (not_lt.mpr high)
        rw [if_pos high, if_neg some_]
      · have same : (∀ d ∈ c :: digits, d < '8') ↔ ∀ d ∈ digits, d < '8' := by
          rw [List.forall_mem_cons, and_iff_right (not_le.mp high)]
        rw [if_neg high, induction _ fun d among => all d (List.mem_cons_of_mem _ among),
          octDigit_eq digit]
        simp only [same]
        apply if_congr Iff.rfl _ rfl
        exact congrArg (fun integer => some (integer, rest)) (accumulate 8 integer c digits)

theorem digits_eq {cs : List Char} {decimals : List Char} (room : cs.length ≤ 32)
    (all : ∀ c ∈ decimals, c.isDigit = true) (ends : ∀ c ∈ rest.head?, c.isDigit = false) :
    digits cs (decimals ++ rest) =
      if cs.length + decimals.length ≤ 32 then some (cs ++ decimals, rest) else none := by
  induction decimals generalizing cs with
  | nil =>
      rw [List.length_nil, Nat.add_zero, if_pos room, List.nil_append, List.append_nil]
      cases rest with
      | nil => rfl
      | cons c rest =>
          have other : c.isDigit = false := ends c rfl
          rw [digits, other]
          rfl
  | cons c decimals induction =>
      have digit : c.isDigit = true := all c List.mem_cons_self
      rw [List.cons_append, digits, digit, if_pos rfl, push]
      by_cases free : cs.length < 32
      · have length : (cs ++ [c]).length = cs.length + 1 := List.length_append
        rw [if_pos free]
        change digits (cs ++ [c]) (decimals ++ rest) = _
        rw [induction (by omega) fun d among => all d (List.mem_cons_of_mem _ among),
          List.append_assoc, List.singleton_append, length, List.length_cons, Nat.add_assoc,
          Nat.add_comm 1]
      · have full : ¬cs.length + (c :: decimals).length ≤ 32 := by
          rw [List.length_cons]
          omega
        rw [if_neg free, if_neg full]
        rfl

theorem value_large {c : Char} {decimals : List Char} (first : c ≠ '0') (digit : c.isDigit = true) :
    10 ^ decimals.length ≤ value 10 (c :: decimals) := by
  have bounds := isDigit_iff.mp digit
  have other : c.toNat ≠ 48 := fun same => first (Char.toNat_inj.mp same)
  have positive : 1 ≤ digitValue c := by
    rw [digitValue_digit digit]
    omega
  rw [value_cons]
  calc 10 ^ decimals.length = 10 ^ decimals.length * 1 := (Nat.mul_one _).symm
    _ ≤ 10 ^ decimals.length * digitValue c := Nat.mul_le_mul_left _ positive
    _ ≤ _ := Nat.le_add_right _ _

/-- The digits of a decimal, which is an integer where it ends. -/
structure IsDecimal (text rest : List Char) : Prop where
  digits : ∀ c ∈ text, c.isDigit = true
  first : ∃ c ∈ text.head?, c ≠ '0'
  stops : ∀ c ∈ rest.head?, c.isDigit = false ∧ c ≠ '.'

/-- The digits behind `0x`. -/
structure IsHexadecimal (text rest : List Char) : Prop where
  digits : ∀ c ∈ text, isXdigit c = true
  nonempty : text ≠ []
  stops : ∀ c ∈ rest.head?, isXdigit c = false

/-- The digits behind `0`, if there are any. -/
structure IsOctal (text rest : List Char) : Prop where
  digits : ∀ c ∈ text, c.isDigit = true
  alone : text = [] → ∀ c ∈ rest.head?, c ≠ '.' ∧ c ≠ 'X' ∧ c ≠ 'x'
  stops : ∀ c ∈ rest.head?, c.isDigit = false

theorem scan_number {c : Char} (digit : c.isDigit = true) :
    scan standard (c :: rest) = number standard (c :: rest) := by
  have bounds := isDigit_iff.mp digit
  have apart {d : Char} (other : d.isDigit = false) : c ≠ d := by
    intro same
    rw [same, other] at digit
    cases digit
  have letter : ¬(standard.isAlpha c = true ∨ c = '_') := by
    rw [standard.basic c (by omega), Formatted.isAlpha_digit digit]
    exact fun begins => begins.elim Bool.false_ne_true (apart (by decide))
  rw [scan]
  · rw [if_neg letter, digit, if_pos rfl]
  all_goals exact apart (by decide)

theorem fromChars_eq {text : List Char} (nonempty : text ≠ []) :
    fromChars text =
      if value 10 text < 2 ^ 63 then some (.ofNat 64 (value 10 text)) else none :=
  if_neg nonempty

theorem scan_decimal {text : List Char} (is : IsDecimal text rest) :
    scan standard (text ++ rest) =
      if value 10 text < 2 ^ 63 then some (.integer (.ofNat 64 (value 10 text)), rest)
      else none := by
  obtain ⟨c, first, nonzero⟩ := is.first
  obtain ⟨tail, rfl⟩ : ∃ tail, text = c :: tail := List.head?_eq_some_iff.mp first
  have digit : c.isDigit = true := is.digits c List.mem_cons_self
  have decimals : number standard (c :: (tail ++ rest)) =
      decimal standard (c :: (tail ++ rest)) := by
    unfold number
    split
    · rename_i same
      exact absurd (List.cons.inj same).1 nonzero
    · rename_i same
      exact absurd (List.cons.inj same).1 nonzero
    · rfl
  rw [List.cons_append, scan_number digit, decimals, decimal, ← List.cons_append,
    digits_eq (Nat.zero_le _) is.digits fun d next => (is.stops d next).1, List.length_nil,
    Nat.zero_add, List.nil_append]
  by_cases room : (c :: tail).length ≤ 32
  · rw [if_pos room]
    have converts : ((fromChars (c :: tail)).bind fun integer =>
          some (Token.integer integer, rest)) =
        if value 10 (c :: tail) < 2 ^ 63 then
          some (.integer (.ofNat 64 (value 10 (c :: tail))), rest) else none := by
      rw [fromChars_eq (List.cons_ne_nil _ _)]
      split <;> rfl
    rw [← converts]
    cases rest with
    | nil => rfl
    | cons d rest =>
        have other : d ≠ '.' := (is.stops d rfl).2
        simp only [Option.bind_eq_bind, Option.bind_some]
        split
        · rename_i same
          exact absurd (List.cons.inj same).1 other
        · rfl
  · -- the buffer is full only behind the largest integer
    have large : ¬value 10 (c :: tail) < 2 ^ 63 := by
      have long : 32 ≤ tail.length := by
        rw [List.length_cons] at room
        omega
      have least : 10 ^ tail.length ≤ value 10 (c :: tail) := value_large nonzero digit
      have power := Nat.pow_le_pow_right (show 0 < 10 by decide) long
      omega
    rw [if_neg room, if_neg large]
    rfl

theorem mask_ofNat (factor n : Nat) :
    mask (0 * BitVec.ofNat 64 factor + BitVec.ofNat 64 n) = BitVec.ofNat 64 (n % 2 ^ 63) := by
  rw [zero_mul, zero_add, mask_eq, BitVec.toNat_ofNat,
    Nat.mod_mod_of_dvd _ (by decide)]

theorem isDigit_zero : '0'.isDigit = true := rfl

theorem scan_hexadecimal {x : Char} (mark : x = 'X' ∨ x = 'x') {text : List Char}
    (is : IsHexadecimal text rest) :
    scan standard ('0' :: x :: (text ++ rest)) =
      some (.integer (.ofNat 64 (value 16 text % 2 ^ 63)), rest) := by
  have marked : number standard ('0' :: x :: (text ++ rest)) = radix (x :: (text ++ rest)) := by
    cases mark with
    | inl same => rw [same]; rfl
    | inr same => rw [same]; rfl
  have found : radix (x :: (text ++ rest)) =
      some (.integer (mask (hexDigits 0 (text ++ rest)).1), (hexDigits 0 (text ++ rest)).2) := by
    obtain ⟨c, tail, rfl⟩ := List.exists_cons_of_ne_nil is.nonempty
    have digit : isXdigit c = true := is.digits c List.mem_cons_self
    cases mark with
    | inl same => rw [same, List.cons_append, radix, digit]; rfl
    | inr same => rw [same, List.cons_append, radix, digit]; rfl
  rw [scan_number isDigit_zero, marked, found, hexDigits_eq 0 is.digits is.stops, mask_ofNat]

theorem scan_octal {text : List Char} (is : IsOctal text rest) :
    scan standard ('0' :: (text ++ rest)) =
      if ∀ c ∈ text, c < '8' then some (.integer (.ofNat 64 (value 8 text % 2 ^ 63)), rest)
      else none := by
  have apart : ∀ c ∈ (text ++ rest).head?, c ≠ '.' ∧ c ≠ 'X' ∧ c ≠ 'x' := by
    cases text with
    | nil => exact is.alone rfl
    | cons d tail =>
        intro c head
        have digit : d.isDigit = true := is.digits d List.mem_cons_self
        cases head
        refine ⟨?_, ?_, ?_⟩ <;> intro same <;> rw [same] at digit <;> cases digit
  have zero : number standard ('0' :: (text ++ rest)) = radix (text ++ rest) := by
    unfold number
    split
    · rename_i same
      have head := (List.cons.inj same).2
      exact absurd rfl (apart _ (by rw [head]; rfl)).1
    · rename_i same
      rw [(List.cons.inj same).2]
    · rename_i other
      exact absurd rfl (other _)
  have octal : radix (text ++ rest) = (octDigits 0 (text ++ rest)).bind fun digits =>
      some (.integer (mask digits.1), digits.2) := by
    unfold radix
    split
    · rename_i same
      exact absurd rfl (apart _ (by rw [same]; rfl)).2.1
    · rename_i same
      exact absurd rfl (apart _ (by rw [same]; rfl)).2.2
    · rfl
  rw [scan_number isDigit_zero, zero, octal, octDigits_eq 0 is.digits is.stops]
  split
  · exact congrArg (fun integer => some (Token.integer integer, rest)) (mask_ofNat _ _)
  · rfl

/-! ### No integer is negative -/

theorem symbol_is (value input : List Char) :
    ∃ text, (symbol standard value input).1 = .symbol text := by
  induction input generalizing value with
  | nil => exact ⟨_, rfl⟩
  | cons c input induction =>
      rw [symbol]
      split
      · exact induction _
      · exact ⟨_, rfl⟩

theorem attempt_is (keyword : String) (i : Nat) (token : Token) (input : List Char) :
    (attempt standard keyword i token input).1 = token ∨
      ∃ text, (attempt standard keyword i token input).1 = .symbol text := by
  unfold attempt
  split
  · exact .inl rfl
  · exact .inr (symbol_is _ _)

theorem word_is (c : Char) (input : List Char) (integer : Word) :
    (word standard c input).1 ≠ .integer integer := by
  have symbols (value input : List Char) :
      (symbol standard value input).1 ≠ .integer integer := by
    obtain ⟨text, is⟩ : ∃ text, (symbol standard value input).1 = .symbol text :=
      symbol_is value input
    rw [is]
    exact Token.noConfusion
  have attempts (keyword : Keyword) (i : Nat) (input : List Char) :
      (attempt standard keyword.spelling i keyword.token input).1 ≠ .integer integer := by
    have shapes : (attempt standard keyword.spelling i keyword.token input).1 = keyword.token ∨
        ∃ text, (attempt standard keyword.spelling i keyword.token input).1 = .symbol text :=
      attempt_is _ _ _ _
    cases shapes with
    | inl is =>
        rw [is]
        cases keyword <;> exact Token.noConfusion
    | inr is =>
        obtain ⟨text, is⟩ := is
        rw [is]
        exact Token.noConfusion
  unfold word
  split
  · exact attempts .break_ _ _
  · split
    · exact attempts .catch_ _ _
    · exact attempts .continue_ _ _
    · exact symbols _ _
  · exact attempts .else_ _ _
  · split
    · exact attempts .false_ _ _
    · exact attempts .finally_ _ _
    · exact attempts .for_ _ _
    · exact symbols _ _
  · exact attempts .if_ _ _
  · exact attempts .null _ _
  · exact attempts .return_ _ _
  · split
    · exact attempts .throw_ _ _
    · split
      · exact attempts .true_ _ _
      · exact attempts .try_ _ _
      · exact symbols _ _
    · exact symbols _ _
  · exact attempts .while_ _ _
  · exact symbols _ _

theorem string_is {s input : List Char} {integer : Word} :
    string s input ≠ some (.integer integer, rest) := by
  intro found
  fun_induction string s input with
  | case1 => cases found
  | case2 => cases found
  | case3 => cases found
  | case4 s c behind induction =>
      rw [Option.bind_eq_bind, Option.bind_eq_some_iff] at found
      obtain ⟨d, _, found⟩ := found
      exact induction d found
  | case5 s c behind _ _ induction => exact induction found

theorem self_is (s input : List Char) (integer : Word) : (self s input).1 ≠ .integer integer := by
  fun_induction self s input with
  | case1 => exact Token.noConfusion
  | case2 s c behind marks induction => exact induction
  | case3 => exact Token.noConfusion

theorem colon_is (count : Nat) (input : List Char) (integer : Word) :
    (colon count input).1 ≠ .integer integer := by
  induction input generalizing count with
  | nil => exact Token.noConfusion
  | cons c rest induction =>
      unfold colon
      split
      · rename_i same
        rw [← (List.cons.inj same).2]
        apply induction
      · exact Token.noConfusion

theorem mask_bound (integer : Word) : (mask integer).toNat < 2 ^ 63 := by
  rw [mask_eq, BitVec.toNat_ofNat]
  exact (Nat.mod_le _ _).trans_lt (Nat.mod_lt _ (by decide))

theorem radix_bound {input : List Char} {integer : Word}
    (found : radix input = some (.integer integer, rest)) : integer.toNat < 2 ^ 63 := by
  unfold radix at found
  split at found
  case h_1 | h_2 =>
    split at found
    · cases found
    · split at found
      · cases found
        exact mask_bound _
      · cases found
  case h_3 =>
    rw [Option.bind_eq_bind, Option.bind_eq_some_iff] at found
    obtain ⟨⟨value, behind⟩, _, found⟩ := found
    cases found
    exact mask_bound _

theorem fromChars_bound {cs : List Char} {integer : Word} (found : fromChars cs = some integer) :
    integer.toNat < 2 ^ 63 := by
  unfold fromChars at found
  split at found
  · cases found
  · split at found
    · rename_i fits
      cases found
      rw [BitVec.toNat_ofNat]
      exact (Nat.mod_le _ _).trans_lt fits
    · cases found

theorem decimal_bound {input : List Char} {integer : Word}
    (found : decimal standard input = some (.integer integer, rest)) :
    integer.toNat < 2 ^ 63 := by
  unfold decimal at found
  rw [Option.bind_eq_bind, Option.bind_eq_some_iff] at found
  obtain ⟨⟨cs, behind⟩, _, found⟩ := found
  simp only at found
  split at found
  · simp only [Option.bind_eq_bind, Option.bind_eq_some_iff] at found
    obtain ⟨_, _, _, _, ⟨cs, behind⟩, _, found⟩ := found
    simp only at found
    split at found
    · cases found
    · cases found
  · rw [Option.bind_eq_bind, Option.bind_eq_some_iff] at found
    obtain ⟨value, converts, found⟩ := found
    cases found
    exact fromChars_bound converts

theorem number_bound {input : List Char} {integer : Word}
    (found : number standard input = some (.integer integer, rest)) :
    integer.toNat < 2 ^ 63 := by
  unfold number at found
  split at found
  · exact decimal_bound found
  · exact radix_bound found
  · exact decimal_bound found

theorem scan_bound {input : List Char} {integer : Word}
    (found : scan standard input = some (.integer integer, rest)) : integer.toNat < 2 ^ 63 := by
  cases input with
  | nil => cases found
  | cons c behind =>
      rw [scan.eq_def] at found
      simp only at found
      split at found
      case h_2 => exact absurd found string_is
      case h_3 => exact absurd (congrArg Prod.fst (Option.some.inj found)) (self_is _ _ _)
      case h_15 => exact absurd (congrArg Prod.fst (Option.some.inj found)) (colon_is _ _ _)
      case h_29 =>
        split at found
        · exact absurd (congrArg Prod.fst (Option.some.inj found)) (word_is _ _ _)
        · split at found
          · exact number_bound found
          · cases found
      all_goals first
        | cases found
        | (split at found <;> cases found)

end

/-! ### Signs before an integer -/

def sign : Unary → Token
  | .plus => .plus
  | .minus => .hyphen
  | .not => .exclamation
  | .complement => .tilde

/-- What `f_unary` makes of operators and an integer behind them: the last of them belongs
to the literal, unless it is a `!`. -/
def signs : List Unary → Word → Tree
  | [], integer => .literal (.integer integer)
  | [op], integer =>
    match Parser.signed op (.integer integer) with
    | some value => .literal value
    | none => .operate (.unary op) [.literal (.integer integer)]
  | op :: ops, integer => .operate (.unary op) [signs ops integer]

/-- The value of operators and an integer without bounds, if it is one. -/
def exact : List Unary → Int → Option Int
  | [], n => some n
  | .plus :: ops, n => exact ops n
  | .minus :: ops, n => (exact ops n).map (-·)
  | .complement :: ops, n => (exact ops n).map (-· - 1)
  | .not :: _, _ => none

/-- No `-` is applied to the smallest integer. -/
def Apart (ops : List Unary) (n : Int) : Prop :=
  ∀ before after, ops = before ++ .minus :: after → exact after n ≠ some (-2 ^ 63)

section

variable {F : Type} [Double F] (double : Decimal → F)

/-- A negation while folding that leaves `intptr_t`. -/
def Overflows (node : Tree) : Prop :=
  ∃ part integer, node = .operate (.unary .minus) [part] ∧
    Compile.constant double part = .integer integer ∧ integer.negOverflow = true

end

theorem apart_cons {op : Unary} {ops : List Unary} {n : Int} :
    Apart (op :: ops) n ↔ (op = .minus → exact ops n ≠ some (-2 ^ 63)) ∧ Apart ops n := by
  constructor
  · intro apart
    refine ⟨fun minus => apart [] ops (by rw [minus]; rfl), fun before after split => ?_⟩
    exact apart (op :: before) after (by rw [split]; rfl)
  · intro ⟨first, apart⟩ before after split
    cases before with
    | nil =>
        cases split
        exact first rfl
    | cons other before =>
        cases split
        exact apart before after rfl

/-- Values stay within the bounds as long as the smallest integer is not negated. -/
theorem exact_fits {ops : List Unary} {n k : Int} (low : 0 ≤ n) (high : n < 2 ^ 63)
    (apart : Apart ops n) (is : exact ops n = some k) : -2 ^ 63 ≤ k ∧ k < 2 ^ 63 := by
  induction ops generalizing k with
  | nil =>
      cases is
      omega
  | cons op ops induction =>
      obtain ⟨first, behind⟩ := apart_cons.mp apart
      cases op with
      | plus => exact induction behind is
      | minus =>
          obtain ⟨m, was, rfl⟩ := Option.map_eq_some_iff.mp is
          have bounds := induction behind was
          have other : m ≠ -2 ^ 63 := fun same => first rfl (same ▸ was)
          omega
      | not => cases is
      | complement =>
          obtain ⟨m, was, rfl⟩ := Option.map_eq_some_iff.mp is
          have bounds := induction behind was
          omega

section

variable {F : Type} [Double F] {double : Decimal → F} {integer : Word}

def folded (op : Unary) (operand : Compile.Operand F) : Compile.Operand F :=
  match foldUnary op operand with
  | .operand operand => operand
  | _ => .temporary

theorem constant_signs (op : Unary) (ops : List Unary) :
    Compile.constant double (signs (op :: ops) integer) =
      folded op (Compile.constant double (signs ops integer)) := by
  cases ops with
  | nil => cases op <;> rfl
  | cons other ops => rfl

theorem complement_ofInt (n : Int) : ~~~BitVec.ofInt 64 n = BitVec.ofInt 64 (-n - 1) := by
  have same : -BitVec.ofInt 64 n = ~~~BitVec.ofInt 64 n + 1 := BitVec.neg_eq_not_add _
  have split : BitVec.ofInt 64 (-n) = BitVec.ofInt 64 (-n - 1) + 1 := by
    conv_lhs => rw [← sub_add_cancel (-n) 1]
    exact BitVec.ofInt_add _ _
  rw [BitVec.ofInt_neg, same] at split
  exact add_right_cancel split

theorem folded_other {op : Unary} {operand : Compile.Operand F}
    (other : ∀ value, operand ≠ .integer value) (value : Word) :
    folded op operand ≠ .integer value := by
  cases operand with
  | integer value => exact absurd rfl (other value)
  | _ => cases op <;> nofun

theorem constant_exact (ops : List Unary) :
    match exact ops integer.toInt with
    | some n => Compile.constant double (signs ops integer) = .integer (BitVec.ofInt 64 n)
    | none => ∀ other, Compile.constant double (signs ops integer) ≠ .integer other := by
  induction ops with
  | nil => exact congrArg Operand.integer BitVec.ofInt_toInt.symm
  | cons op ops induction =>
      rw [constant_signs]
      cases is : exact ops integer.toInt with
      | none =>
          rw [is] at induction
          have none : exact (op :: ops) integer.toInt = none := by
            cases op <;> simp [exact, is]
          rw [none]
          exact folded_other induction
      | some n =>
          rw [is] at induction
          rw [induction]
          cases op with
          | plus =>
              rw [exact, is]
              rfl
          | minus =>
              rw [exact, is]
              exact congrArg Operand.integer BitVec.ofInt_neg.symm
          | not => nofun
          | complement =>
              rw [exact, is]
              exact congrArg Operand.integer (complement_ofInt n)

theorem order_unary (op : Unary) (part : Tree) :
    Compile.order (.operate (.unary op) [part]) =
      Compile.order part ++ [.operate (.unary op) [part]] := by
  rw [Compile.order, Compile.order.all, Compile.order.all, List.append_nil]

/-- The nodes of operators before an integer: those of the operators behind the first, and
its own unless it belongs to the literal. -/
theorem order_signs (op : Unary) (ops : List Unary) :
    Compile.order (signs (op :: ops) integer) = Compile.order (signs ops integer) ++
      if ops = [] ∧ op ≠ .not then [] else [.operate (.unary op) [signs ops integer]] := by
  cases ops with
  | nil => cases op <;> rfl
  | cons other ops =>
      rw [if_neg fun alone => List.cons_ne_nil _ _ alone.1]
      exact order_unary op _

theorem ofInt_negOverflow {n : Int} (low : -2 ^ 63 ≤ n) (high : n < 2 ^ 63) :
    (BitVec.ofInt 64 n).negOverflow = true ↔ n = -2 ^ 63 := by
  rw [BitVec.negOverflow, beq_iff_eq, BitVec.toInt_ofInt, Int.bmod_eq_of_le (by omega) (by omega)]

theorem overflows_unary {op : Unary} {part : Tree} :
    Overflows double (.operate (.unary op) [part]) ↔
      op = .minus ∧ ∃ value, Compile.constant double part = .integer value ∧
        value.negOverflow = true := by
  constructor
  · intro ⟨other, value, same, rest⟩
    cases same
    exact ⟨rfl, value, rest⟩
  · intro ⟨minus, value, rest⟩
    exact ⟨part, value, by rw [minus], rest⟩

/-- The operand of an operator is the smallest integer exactly if the value is, as long as
it has not been negated before. -/
theorem smallest_iff {ops : List Unary} (bound : integer.toNat < 2 ^ 63)
    (apart : Apart ops integer.toInt) :
    (∃ value, Compile.constant double (signs ops integer) = .integer value ∧
        value.negOverflow = true) ↔ exact ops integer.toInt = some (-2 ^ 63) := by
  have positive : integer.toInt = integer.toNat := BitVec.toInt_eq_toNat_of_lt (by omega)
  have folds : match exact ops integer.toInt with
      | some n => Compile.constant double (signs ops integer) = .integer (BitVec.ofInt 64 n)
      | none => ∀ other, Compile.constant double (signs ops integer) ≠ .integer other :=
    constant_exact ops
  cases is : exact ops integer.toInt with
  | none =>
      rw [is] at folds
      constructor
      · intro ⟨value, same, _⟩
        exact absurd same (folds value)
      · exact nofun
  | some n =>
      rw [is] at folds
      have fits := exact_fits (by omega) (by omega) apart is
      rw [folds, Option.some.injEq, ← ofInt_negOverflow fits.1 fits.2]
      constructor
      · intro ⟨value, same, overflow⟩
        cases same
        exact overflow
      · intro overflow
        exact ⟨_, rfl, overflow⟩

theorem overflows_iff (bound : integer.toNat < 2 ^ 63) (ops : List Unary) :
    (∀ node ∈ Compile.order (signs ops integer), ¬Overflows double node) ↔
      Apart ops integer.toInt := by
  induction ops with
  | nil =>
      constructor
      · intro _ before after split
        cases before <;> cases split
      · intro _ node among
        cases among
  | cons op ops induction =>
      rw [order_signs, List.forall_mem_append, induction, apart_cons, and_comm]
      apply and_congr_left
      intro apart
      have smallest : (∃ value, Compile.constant double (signs ops integer) = .integer value ∧
          value.negOverflow = true) ↔ exact ops integer.toInt = some (-2 ^ 63) :=
        smallest_iff bound apart
      split
      · rename_i alone
        -- the literal itself is not negative
        constructor
        · intro _ _ same
          rw [alone.1] at same
          have least : integer.toInt = -2 ^ 63 := Option.some.inj same
          have positive : integer.toInt = integer.toNat := BitVec.toInt_eq_toNat_of_lt (by omega)
          omega
        · intro _ node among
          cases among
      · rw [List.forall_mem_singleton, overflows_unary, not_and, smallest]

/-! ### What the parser reads -/

theorem unaryOf_sign (op : Unary) : Parser.unaryOf (sign op) = some op := by
  cases op <;> rfl

theorem signed_sign (op other : Unary) : Parser.signed op (sign other) = none := by
  cases op <;> cases other <;> rfl

theorem signs_derive {names : Parser.Others} {depth : Nat} {next : Option Token}
    (ops : List Unary) :
    Parser.Derives .implemented names depth (.unary (signs ops integer)) next
      (ops.map sign ++ [.integer integer]) := by
  have alone : Parser.Derives .implemented names depth (.unary (.literal (.integer integer))) next
      ([.integer integer] ++ []) :=
    .chained (.literal rfl) .stepsEnd
  rw [List.append_nil] at alone
  induction ops with
  | nil => exact alone
  | cons op ops induction =>
      cases ops with
      | nil =>
          cases is : Parser.signed op (.integer integer) with
          | some value =>
              have literal : signs [op] integer = .literal value := by
                rw [signs, is]
              rw [literal]
              exact .number rfl (unaryOf_sign op) is .stepsEnd
          | none =>
              have apart : signs [op] integer =
                  .operate (.unary op) [.literal (.integer integer)] := by
                rw [signs, is]
              rw [apart]
              refine .sign (unaryOf_sign op) (fun _ number head => ?_) alone
              cases head
              exact is
      | cons other ops =>
          refine .sign (unaryOf_sign op) (fun _ number head => ?_) induction
          cases head
          exact signed_sign op other

end

/-- A decimal is its value up to the largest integer and an error beyond; hexadecimals and
octals are their values modulo 2^63, and 8 and 9 are no octal digits. No integer is
negative, and no literal is negated beyond the bounds; what the operators before it are
folded to overflows if and only if there is a `-` before a value of -2^63. -/
theorem integers_lexed_iff {F : Type} [Double F] (double : Decimal → F) (standard : Standard) :
    (∀ text rest, IsDecimal text rest → scan standard (text ++ rest) =
      if value 10 text < 2 ^ 63 then some (.integer (.ofNat 64 (value 10 text)), rest)
      else none) ∧
    (∀ x text rest, x = 'X' ∨ x = 'x' → IsHexadecimal text rest →
      scan standard ('0' :: x :: (text ++ rest)) =
        some (.integer (.ofNat 64 (value 16 text % 2 ^ 63)), rest)) ∧
    (∀ text rest, IsOctal text rest → scan standard ('0' :: (text ++ rest)) =
      if ∀ c ∈ text, c < '8' then some (.integer (.ofNat 64 (value 8 text % 2 ^ 63)), rest)
      else none) ∧
    ∀ input integer rest, scan standard input = some (.integer integer, rest) →
      0 ≤ integer.toInt ∧ integer.negOverflow = false ∧ ∀ ops,
        (∀ place indent last next, Parser.Ending indent last → Parser.Stops 13 next →
          ∀ᶠ fuel in Filter.atTop, ∀ flag assignable,
            Parser.Reads place indent last flag
              (Parser.unary (Parser.nested fuel) fuel assignable)
              (ops.map sign ++ [.integer integer]) (signs ops integer) next) ∧
        ((∀ node ∈ Compile.order (signs ops integer), ¬Overflows double node) ↔
          Apart ops integer.toInt) := by
  refine ⟨fun _ _ => scan_decimal, fun _ _ _ mark => scan_hexadecimal mark,
    fun _ _ => scan_octal, ?_⟩
  intro input integer rest found
  have bound := scan_bound found
  have positive : integer.toInt = integer.toNat := BitVec.toInt_eq_toNat_of_lt (by omega)
  refine ⟨by omega, ?_, fun ops => ⟨?_, overflows_iff bound ops⟩⟩
  · rw [BitVec.negOverflow, beq_eq_false_iff_ne, positive]
    omega
  · intro place indent last next ending
    exact (signs_derive ops).meets ending

/-- `-~9223372036854775807` -/
theorem smallest_negated :
    scan .portable "9223372036854775807".toList = some (.integer 9223372036854775807, []) ∧
    ∃ tree scope state, Parser.program 4 (Parser.start ⟨.hyphen, false, 0⟩
        (Parser.line [.tilde, .integer 9223372036854775807])) = .ok ((tree, scope), state) ∧
      ∃ node ∈ Compile.order tree, Overflows (F := Int) (fun _ => 0) node := by
  refine ⟨by decide +kernel, _, _, _, rfl, _, ?_, .literal (.integer (~~~9223372036854775807)), _,
    rfl, rfl, rfl⟩
  exact List.mem_cons_self

end Lexer

end Xemmai
