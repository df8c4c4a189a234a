import Mathlib
import Xemmai.Token

/-!
# The lexer

`t_lexer` on the characters of a stream. The classes of the characters beyond the basic
ones and the conversion of doubles are the standard library's; line numbers and columns,
which only errors tell, are left out.
-/

namespace Xemmai

set_option autoImplicit false

namespace Lexer

/-- `iswalpha`, `iswspace`, and whether `from_chars` makes a double of a text. -/
structure Standard where
  isAlpha : Char → Bool
  isSpace : Char → Bool
  isDouble : List Char → Bool
  basic : ∀ c : Char, c.toNat < 128 → isAlpha c = c.isAlpha

def Standard.portable : Standard where
  isAlpha := Char.isAlpha
  isSpace c := c = ' ' || 9 ≤ c.toNat && c.toNat ≤ 13
  isDouble cs := (cs.takeWhile fun c => c.isDigit || c = '.').any Char.isDigit
  basic _ _ := rfl

/-- `v_c` with what is behind it in the stream, which is empty at the end of the file, and
`v_indent`. -/
structure State where
  input : List Char
  indent : List Char
  deriving DecidableEq, Repr

/-! ### Numbers -/

/-- `iswxdigit` -/
def isXdigit (c : Char) : Bool :=
  c.isDigit || 'a' ≤ c && c ≤ 'f' || 'A' ≤ c && c ≤ 'F'

/-- What a hexadecimal digit adds to `v_integer`; the code of a character is a `wint_t`. -/
def hexDigit (c : Char) : Word :=
  let i := BitVec.ofNat 32 c.toNat - 48
  (if i < 10 then i else (i - 7) &&& 0xf).setWidth 64

def hexDigits (integer : Word) : List Char → Word × List Char
  | [] => (integer, [])
  | c :: rest =>
    if isXdigit c then hexDigits (integer * 16 + hexDigit c) rest else (integer, c :: rest)

def octDigits (integer : Word) : List Char → Option (Word × List Char)
  | [] => some (integer, [])
  | c :: rest =>
    if c.isDigit then
      if '8' ≤ c then none
      else octDigits (integer * 8 + (BitVec.ofNat 32 c.toNat - 48).setWidth 64) rest
    else some (integer, c :: rest)

/-- `v_integer & ~uintptr_t{} >> 1` -/
def mask (integer : Word) : Word :=
  integer &&& (~~~(0 : Word)) >>> 1

/-- An integer behind its `0`. -/
def radix : List Char → Option (Token × List Char)
  | 'X' :: rest | 'x' :: rest =>
    match rest with
    | [] => none
    | c :: _ =>
      if isXdigit c then
        let (integer, rest) := hexDigits 0 rest
        some (.integer (mask integer), rest)
      else none
  | rest => do
    let (integer, rest) ← octDigits 0 rest
    some (.integer (mask integer), rest)

/-- The digits of a decimal go into `char cs[32]`. -/
def push (cs : List Char) (c : Char) : Option (List Char) :=
  if cs.length < 32 then some (cs ++ [c]) else none

def digits (cs : List Char) : List Char → Option (List Char × List Char)
  | [] => some (cs, [])
  | c :: rest => if c.isDigit then do digits (← push cs c) rest else some (cs, c :: rest)

def digitValue (c : Char) : Nat :=
  if c.isDigit then c.toNat - '0'.toNat
  else if 'a' ≤ c then c.toNat - 'a'.toNat + 10
  else c.toNat - 'A'.toNat + 10

def value (base : Nat) (digits : List Char) : Nat :=
  Nat.ofDigits base (digits.map digitValue).reverse

/-- `from_chars` for an `intptr_t`, on digits. -/
def fromChars (cs : List Char) : Option Word :=
  if cs = [] then none
  else if value 10 cs < 2 ^ 63 then some (.ofNat 64 (value 10 cs))
  else none

def exponentSign (cs : List Char) : List Char → Option (List Char × List Char)
  | [] => some (cs, [])
  | c :: rest =>
    if c = '+' ∨ c = '-' then do
      some (← push cs c, rest)
    else some (cs, c :: rest)

def exponent (cs : List Char) : List Char → Option (List Char × List Char)
  | [] => some (cs, [])
  | c :: rest =>
    if c = 'E' ∨ c = 'e' then do
      let (cs, rest) ← exponentSign (← push cs c) rest
      match rest with
      | [] => none
      | c :: _ => if c.isDigit then digits cs rest else none
    else some (cs, c :: rest)

section

variable (standard : Standard)

/-- A number that is collected in `cs`. -/
def decimal (input : List Char) : Option (Token × List Char) := do
  let (cs, rest) ← digits [] input
  match rest with
  | '.' :: rest =>
    let (cs, rest) ← digits (← push cs '.') rest
    let (cs, rest) ← exponent cs rest
    if standard.isDouble cs then some (.float ⟨false, String.ofList cs⟩, rest) else none
  | rest => some (.integer (← fromChars cs), rest)

def number : List Char → Option (Token × List Char)
  | '0' :: '.' :: rest => decimal standard ('.' :: rest)
  | '0' :: rest => radix rest
  | input => decimal standard input

/-! ### Words -/

def isSymbol (c : Char) : Bool :=
  standard.isAlpha c || c.isDigit || c = '_'

/-- The loop that ends a symbol, with what `v_value` has. -/
def symbol (value : List Char) : List Char → Token × List Char
  | [] => (.symbol (String.ofList value), [])
  | c :: rest =>
    if isSymbol standard c then symbol (value ++ [c]) rest
    else (.symbol (String.ofList value), c :: rest)

/-- The lambda `match` behind the character it is called at: the rest of the input if the
rest of the keyword is there and ends, or else what goes to `v_value` as well. -/
def match_ (value : List Char) : List Char → List Char → List Char ⊕ (List Char × List Char)
  | [], [] => .inl []
  | [], c :: rest => if isSymbol standard c then .inr (value, c :: rest) else .inl (c :: rest)
  | _ :: _, [] => .inr (value, [])
  | k :: keyword, c :: rest =>
    if c = k then match_ (value ++ [k]) keyword rest else .inr (value, c :: rest)

/-- A keyword of which the first `i` characters have been seen, or else a symbol. -/
def attempt (keyword : String) (i : Nat) (token : Token) (rest : List Char) :
    Token × List Char :=
  match match_ standard (keyword.toList.take i) (keyword.toList.drop i) rest with
  | .inl rest => (token, rest)
  | .inr (value, rest) => symbol standard value rest

/-- A keyword or a symbol, from its first character on. -/
def word (c : Char) (rest : List Char) : Token × List Char :=
  match c with
  | 'b' => attempt standard "break" 1 .break_ rest
  | 'c' =>
    match rest with
    | 'a' :: rest => attempt standard "catch" 2 .catch_ rest
    | 'o' :: rest => attempt standard "continue" 2 .continue_ rest
    | rest => symbol standard ['c'] rest
  | 'e' => attempt standard "else" 1 .else_ rest
  | 'f' =>
    match rest with
    | 'a' :: rest => attempt standard "false" 2 .false_ rest
    | 'i' :: rest => attempt standard "finally" 2 .finally_ rest
    | 'o' :: rest => attempt standard "for" 2 .for_ rest
    | rest => symbol standard ['f'] rest
  | 'i' => attempt standard "if" 1 .if_ rest
  | 'n' => attempt standard "null" 1 .null rest
  | 'r' => attempt standard "return" 1 .return_ rest
  | 't' =>
    match rest with
    | 'h' :: rest => attempt standard "throw" 2 .throw_ rest
    | 'r' :: rest =>
      match rest with
      | 'u' :: rest => attempt standard "true" 3 .true_ rest
      | 'y' :: rest => attempt standard "try" 3 .try_ rest
      | rest => symbol standard ['t', 'r'] rest
    | rest => symbol standard ['t'] rest
  | 'w' => attempt standard "while" 1 .while_ rest
  | c => symbol standard [] (c :: rest)

/-! ### Tokens -/

/-- The character that stands behind a `\`. -/
def escaped : Char → Option Char
  | '"' => some '"'
  | '0' => some '\x00'
  | '\\' => some '\\'
  | 'a' => some '\x07'
  | 'b' => some '\x08'
  | 'f' => some '\x0c'
  | 'n' => some '\n'
  | 'r' => some '\r'
  | 't' => some '\t'
  | 'v' => some '\x0b'
  | _ => none

def string (s : List Char) : List Char → Option (Token × List Char)
  | [] => none
  | '"' :: rest => some (.string (String.ofList s), rest)
  | '\\' :: rest =>
    match rest with
    | [] => none
    | c :: rest => do string (s ++ [← escaped c]) rest
  | c :: rest => string (s ++ [c]) rest

def self (value : List Char) : List Char → Token × List Char
  | [] => (.self value, [])
  | c :: rest =>
    if c = '@' ∨ c = '^' then self (value ++ [c]) rest else (.self value, c :: rest)

def colon (count : Nat) : List Char → Token × List Char
  | ':' :: rest => colon (count + 1) rest
  | rest => (.colon count, rest)

/-- The token at `v_c` and the rest of the stream, or none where the lexer throws. -/
def scan : List Char → Option (Token × List Char)
  | [] => some (.eof, [])
  | c :: rest =>
    match c with
    | '!' =>
      match rest with
      | '=' :: '=' :: rest => some (.notIdentical, rest)
      | '=' :: rest => some (.notEquals, rest)
      | rest => some (.exclamation, rest)
    | '"' => string [] rest
    | '$' => some (self [] rest)
    | '%' => some (.percent, rest)
    | '&' =>
      match rest with
      | '&' :: rest => some (.andAlso, rest)
      | rest => some (.ampersand, rest)
    | '\'' => some (.apostrophe, rest)
    | '(' => some (.leftParenthesis, rest)
    | ')' => some (.rightParenthesis, rest)
    | '*' => some (.asterisk, rest)
    | '+' => some (.plus, rest)
    | ',' => some (.comma, rest)
    | '-' => some (.hyphen, rest)
    | '.' => some (.dot, rest)
    | '/' => some (.slash, rest)
    | ':' => some (colon 1 rest)
    | ';' => some (.semicolon, rest)
    | '<' =>
      match rest with
      | '<' :: rest => some (.leftShift, rest)
      | '=' :: rest => some (.lessEqual, rest)
      | rest => some (.less, rest)
    | '=' =>
      match rest with
      | '=' :: '=' :: rest => some (.identical, rest)
      | '=' :: rest => some (.equals, rest)
      | rest => some (.equal, rest)
    | '>' =>
      match rest with
      | '=' :: rest => some (.greaterEqual, rest)
      | '>' :: rest => some (.rightShift, rest)
      | rest => some (.greater, rest)
    | '?' => some (.question, rest)
    | '@' => some (.atmark, rest)
    | '[' => some (.leftBracket, rest)
    | ']' => some (.rightBracket, rest)
    | '^' => some (.hat, rest)
    | '\x7b' => some (.leftBrace, rest)
    | '|' =>
      match rest with
      | '|' :: rest => some (.orElse, rest)
      | rest => some (.bar, rest)
    | '\x7d' => some (.rightBrace, rest)
    | '~' => some (.tilde, rest)
    | c =>
      if standard.isAlpha c ∨ c = '_' then some (word standard c rest)
      else if c.isDigit then number standard (c :: rest)
      else none

/-! ### Lines -/

def skipLine : List Char → List Char
  | [] => []
  | '\n' :: rest => rest
  | _ :: rest => skipLine rest

/-- The spaces up to the end of the line, and what is behind them. -/
def spaces : List Char → List Char × List Char
  | [] => ([], [])
  | c :: rest =>
    if c ≠ '\n' ∧ standard.isSpace c then
      let (taken, rest) := spaces rest
      (c :: taken, rest)
    else ([], c :: rest)

/-- The spaces of a line as far as `v_indent` goes, which have to be the same. -/
def sameIndent : List Char → List Char → Option (List Char × List Char)
  | _, [] => some ([], [])
  | [], rest => some ([], rest)
  | s :: indent, c :: rest =>
    if c ≠ '\n' ∧ standard.isSpace c then
      if c ≠ s then none
      else do
        let (taken, rest) ← sameIndent indent rest
        some (c :: taken, rest)
    else some ([], c :: rest)

def endsLine : List Char → Bool
  | [] => false
  | c :: _ => c = '\n' || c = '#'

theorem skipLine_length (input : List Char) : (skipLine input).length ≤ input.length - 1 := by
  induction input using skipLine.induct with
  | case1 => exact le_rfl
  | case2 => exact le_rfl
  | case3 c rest other induction =>
      rw [skipLine.eq_3 c rest other]
      simp only [List.length_cons]
      omega

theorem spaces_length (input : List Char) : (spaces standard input).2.length ≤ input.length := by
  induction input with
  | nil => exact le_rfl
  | cons c rest induction =>
      rw [spaces]
      split
      · exact induction.trans (Nat.le_succ _)
      · exact le_rfl

theorem sameIndent_length {indent input taken rest : List Char}
    (same : sameIndent standard indent input = some (taken, rest)) :
    rest.length ≤ input.length := by
  induction indent generalizing input taken with
  | nil =>
      cases input <;> cases same <;> exact le_rfl
  | cons s indent induction =>
      cases input with
      | nil =>
          cases same
          exact le_rfl
      | cons c input =>
          rw [sameIndent] at same
          split at same
          · split at same
            · cases same
            · rw [Option.bind_eq_bind, Option.bind_eq_some_iff] at same
              obtain ⟨⟨_, behind⟩, found, same⟩ := same
              cases same
              exact (induction found).trans (Nat.le_succ _)
          · cases same
            exact le_rfl

/-- The lines up to the first that has a token, with `v_indent` what it was at the last of
them and what it is now. -/
def lines (indent input : List Char) : Option State :=
  match _same : sameIndent standard indent (skipLine input) with
  | none => none
  | some (taken, rest) =>
    let behind := spaces standard rest
    if _ends : endsLine behind.2 then lines indent behind.2
    else some ⟨behind.2, taken ++ behind.1⟩
termination_by input.length
decreasing_by
  have shorter : (spaces standard rest).2.length ≤ input.length - 1 :=
    (spaces_length standard rest).trans
      ((sameIndent_length standard _same).trans (skipLine_length input))
  have nonempty : (spaces standard rest).2 ≠ [] := fun none => by
    have blank : endsLine (spaces standard rest).2 = true := _ends
    rw [none] at blank
    cases blank
  have positive : 0 < (spaces standard rest).2.length := List.length_pos_iff.mpr nonempty
  omega

/-- Where the next token is, and `v_newline`. -/
def skip (state : State) : Option (State × Bool) :=
  let input := (spaces standard state.input).2
  if endsLine input then (lines standard state.indent input).map (·, true)
  else some ({ state with input := input }, false)

def next (state : State) : Option (Lexeme × State) := do
  let (state, newline) ← skip standard state
  let (token, rest) ← scan standard state.input
  some (⟨token, newline, state.indent.length⟩, { state with input := rest })

end

/-! ### What words are -/

inductive Keyword
  | break_
  | catch_
  | continue_
  | else_
  | false_
  | finally_
  | for_
  | if_
  | null
  | return_
  | throw_
  | true_
  | try_
  | while_
  deriving DecidableEq, Repr

def Keyword.all : List Keyword :=
  [.break_, .catch_, .continue_, .else_, .false_, .finally_, .for_, .if_, .null, .return_, .throw_,
    .true_, .try_, .while_]

def Keyword.spelling : Keyword → String
  | .break_ => "break"
  | .catch_ => "catch"
  | .continue_ => "continue"
  | .else_ => "else"
  | .false_ => "false"
  | .finally_ => "finally"
  | .for_ => "for"
  | .if_ => "if"
  | .null => "null"
  | .return_ => "return"
  | .throw_ => "throw"
  | .true_ => "true"
  | .try_ => "try"
  | .while_ => "while"

def Keyword.token : Keyword → Token
  | .break_ => .break_
  | .catch_ => .catch_
  | .continue_ => .continue_
  | .else_ => .else_
  | .false_ => .false_
  | .finally_ => .finally_
  | .for_ => .for_
  | .if_ => .if_
  | .null => .null
  | .return_ => .return_
  | .throw_ => .throw_
  | .true_ => .true_
  | .try_ => .try_
  | .while_ => .while_

/-- A keyword for its spelling, and a symbol for any other run of characters. -/
def classify (run : List Char) : Token :=
  match Keyword.all.find? fun keyword => keyword.spelling.toList = run with
  | some keyword => keyword.token
  | none => .symbol (String.ofList run)

theorem Keyword.mem_all (keyword : Keyword) : keyword ∈ Keyword.all := by
  cases keyword <;> decide

theorem Keyword.token_inj {one two : Keyword} (same : one.token = two.token) : one = two := by
  cases one <;> cases two <;> first | rfl | cases same

theorem Keyword.letters (keyword : Keyword) : ∀ c ∈ keyword.spelling.toList, c.isAlpha = true := by
  cases keyword <;> simp [Keyword.spelling]

theorem Keyword.token_ne_symbol (keyword : Keyword) (value : String) :
    keyword.token ≠ .symbol value := by
  cases keyword <;> exact Token.noConfusion

theorem classify_keyword {run : List Char} (keyword : Keyword) :
    classify run = keyword.token ↔ run = keyword.spelling.toList := by
  have spelled {one two : Keyword} (same : one.spelling.toList = two.spelling.toList) :
      one = two := by
    revert same
    cases one <;> cases two <;> decide
  unfold classify
  constructor
  · intro same
    split at same
    · rename_i other found
      have spells := List.find?_some found
      rw [← Keyword.token_inj same]
      exact (of_decide_eq_true spells).symm
    · exact absurd same.symm (keyword.token_ne_symbol _)
  · intro same
    split
    · rename_i other found
      have spells := List.find?_some found
      rw [spelled ((of_decide_eq_true spells).trans same)]
    · rename_i none
      have spells := List.find?_eq_none.mp none keyword keyword.mem_all
      exact absurd (decide_eq_true same.symm) spells

theorem classify_symbol {run : List Char}
    (other : ∀ keyword : Keyword, run ≠ keyword.spelling.toList) :
    classify run = .symbol (String.ofList run) := by
  have none : Keyword.all.find? (fun keyword => keyword.spelling.toList = run) = none := by
    apply List.find?_eq_none.mpr
    intro keyword _ same
    exact other keyword (of_decide_eq_true same).symm
  rw [classify, none]

section

variable {standard : Standard} {rest : List Char}

/-- No identifier character stands before what is behind a run of them. -/
def Stops (standard : Standard) (rest : List Char) : Prop :=
  ∀ c ∈ rest.head?, isSymbol standard c = false

theorem symbol_eq (value : List Char) {tail : List Char}
    (symbols : ∀ c ∈ tail, isSymbol standard c = true) (stops : Stops standard rest) :
    symbol standard value (tail ++ rest) = (.symbol (String.ofList (value ++ tail)), rest) := by
  induction tail generalizing value with
  | nil =>
      cases rest with
      | nil => rw [List.append_nil, List.append_nil, symbol]
      | cons c rest =>
          have stop : isSymbol standard c = false := stops c rfl
          rw [List.nil_append, symbol, stop, List.append_nil]
          rfl
  | cons c tail induction =>
      have is : isSymbol standard c = true := symbols c List.mem_cons_self
      rw [List.cons_append, symbol, is, if_pos rfl,
        induction _ fun d among => symbols d (List.mem_cons_of_mem _ among)]
      rw [List.append_assoc, List.singleton_append]

/-- Where the keyword is not there, what has been consumed goes to the value, and the
character that is looked at does not. -/
theorem match_eq (value : List Char) {keyword tail : List Char}
    (letters : ∀ c ∈ keyword, isSymbol standard c = true)
    (symbols : ∀ c ∈ tail, isSymbol standard c = true) (stops : Stops standard rest) :
    match_ standard value keyword (tail ++ rest) = .inl rest ∧ keyword = tail ∨
      ∃ taken left, match_ standard value keyword (tail ++ rest) =
          .inr (value ++ taken, left ++ rest) ∧ taken ++ left = tail ∧ keyword ≠ tail := by
  induction keyword generalizing value tail with
  | nil =>
      cases tail with
      | nil =>
          apply Or.inl
          cases rest with
          | nil => exact ⟨rfl, rfl⟩
          | cons c rest =>
              have stop : isSymbol standard c = false := stops c rfl
              rw [List.nil_append, match_, stop]
              exact ⟨rfl, rfl⟩
      | cons c tail =>
          have is : isSymbol standard c = true := symbols c List.mem_cons_self
          refine .inr ⟨[], c :: tail, ?_, rfl, nofun⟩
          rw [List.cons_append, match_, is, if_pos rfl, List.append_nil]
  | cons k keyword induction =>
      cases tail with
      | nil =>
          refine .inr ⟨[], [], ?_, rfl, nofun⟩
          cases rest with
          | nil => rw [List.append_nil, List.append_nil, match_]
          | cons c rest =>
              -- the characters of a keyword would not end the run
              have apart : c ≠ k := by
                intro same
                have stop : isSymbol standard c = false := stops c rfl
                rw [same, letters k List.mem_cons_self] at stop
                cases stop
              rw [List.nil_append, match_, if_neg apart, List.append_nil]
      | cons c tail =>
          by_cases same : c = k
          · rw [List.cons_append, match_, if_pos same]
            cases induction (value ++ [k]) (fun d among => letters d (List.mem_cons_of_mem _ among))
              (fun d among => symbols d (List.mem_cons_of_mem _ among)) with
            | inl found => exact .inl ⟨found.1, by rw [found.2, same]⟩
            | inr other =>
                obtain ⟨taken, left, found, split, apart⟩ := other
                refine .inr ⟨k :: taken, left, ?_, by rw [← split, same, List.cons_append], ?_⟩
                · rw [found, List.append_assoc, List.singleton_append]
                · intro equal
                  exact apart (List.cons.inj equal).2
          · refine .inr ⟨[], c :: tail, ?_, rfl, fun equal => same (List.cons.inj equal).1.symm⟩
            rw [List.cons_append, match_, if_neg same, List.append_nil]

theorem isSymbol_alpha {c : Char} (letter : c.isAlpha = true) : isSymbol standard c = true := by
  have low : c.toNat < 128 := by
    simp only [Char.isAlpha, Char.isUpper, Char.isLower, Bool.or_eq_true, Bool.and_eq_true,
      decide_eq_true_eq, ge_iff_le] at letter
    change c.val.toNat < 128
    rcases letter with upper | lower
    · have bound : c.val.toNat ≤ 90 := upper.2
      omega
    · have bound : c.val.toNat ≤ 122 := lower.2
      omega
  unfold isSymbol
  rw [standard.basic c low, letter]
  rfl

theorem letter_next {c : Char} {tail behind : List Char} (stops : Stops standard rest)
    (next : tail ++ rest = c :: behind) (letter : c.isAlpha = true) :
    ∃ left, tail = c :: left ∧ behind = left ++ rest := by
  cases tail with
  | nil =>
      have stop : isSymbol standard c = false := stops c (by rw [← List.nil_append rest, next]; rfl)
      rw [isSymbol_alpha letter] at stop
      cases stop
  | cons d left =>
      obtain ⟨rfl, rfl⟩ := List.cons.inj next
      exact ⟨left, rfl, rfl⟩

theorem symbol_classify {seen tail : List Char}
    (other : ∀ keyword : Keyword, seen ++ tail ≠ keyword.spelling.toList)
    (symbols : ∀ c ∈ tail, isSymbol standard c = true) (stops : Stops standard rest) :
    symbol standard seen (tail ++ rest) = (classify (seen ++ tail), rest) := by
  rw [symbol_eq _ symbols stops, classify_symbol other]

/-- A keyword that is the only one to begin as it does is told from symbols by the rest. -/
theorem attempt_eq (keyword : Keyword) (i : Nat) {tail : List Char}
    (within : i ≤ keyword.spelling.toList.length)
    (only : ∀ other ∈ Keyword.all,
      other.spelling.toList.take i = keyword.spelling.toList.take i → other = keyword)
    (symbols : ∀ c ∈ tail, isSymbol standard c = true) (stops : Stops standard rest) :
    attempt standard keyword.spelling i keyword.token (tail ++ rest) =
      (classify (keyword.spelling.toList.take i ++ tail), rest) := by
  have following : ∀ c ∈ keyword.spelling.toList.drop i, isSymbol standard c = true :=
    fun c among => isSymbol_alpha (keyword.letters c (List.mem_of_mem_drop among))
  unfold attempt
  cases match_eq (keyword.spelling.toList.take i) following symbols stops with
  | inl found =>
      rw [found.1, ← found.2, List.take_append_drop, (classify_keyword keyword).mpr rfl]
  | inr other =>
      obtain ⟨taken, left, found, split, apart⟩ := other
      have symbols : ∀ c ∈ left, isSymbol standard c = true := fun c among =>
        symbols c (split ▸ List.mem_append_right _ among)
      have unspelled : ∀ other : Keyword,
          keyword.spelling.toList.take i ++ tail ≠ other.spelling.toList := by
        intro other same
        have length : (keyword.spelling.toList.take i).length = i := List.length_take_of_le within
        have begins := congrArg (List.take i) same
        rw [List.take_left' length] at begins
        have ends := congrArg (List.drop i) same
        rw [List.drop_left' length, only other other.mem_all begins.symm] at ends
        exact apart ends.symm
      rw [found, ← split, ← List.append_assoc]
      rw [← split, ← List.append_assoc] at unspelled
      exact symbol_classify unspelled symbols stops

/-- A word is a keyword or a symbol as a whole, and what is behind it is left. -/
theorem word_eq {c : Char} {tail : List Char}
    (symbols : ∀ d ∈ c :: tail, isSymbol standard d = true) (stops : Stops standard rest) :
    word standard c (tail ++ rest) = (classify (c :: tail), rest) := by
  have behind : ∀ d ∈ tail, isSymbol standard d = true := fun d among =>
    symbols d (List.mem_cons_of_mem _ among)
  unfold word
  split
  · exact attempt_eq .break_ 1 (by decide) (by decide) behind stops
  · split
    · rename_i next
      obtain ⟨left, rfl, rfl⟩ := letter_next stops next rfl
      exact attempt_eq .catch_ 2 (by decide) (by decide)
        (fun d among => behind d (List.mem_cons_of_mem _ among)) stops
    · rename_i next
      obtain ⟨left, rfl, rfl⟩ := letter_next stops next rfl
      exact attempt_eq .continue_ 2 (by decide) (by decide)
        (fun d among => behind d (List.mem_cons_of_mem _ among)) stops
    · rename_i noA noO
      apply symbol_classify _ behind stops
      intro keyword spelled
      cases keyword <;> cases spelled
      · exact noA _ rfl
      · exact noO _ rfl
  · exact attempt_eq .else_ 1 (by decide) (by decide) behind stops
  · split
    · rename_i next
      obtain ⟨left, rfl, rfl⟩ := letter_next stops next rfl
      exact attempt_eq .false_ 2 (by decide) (by decide)
        (fun d among => behind d (List.mem_cons_of_mem _ among)) stops
    · rename_i next
      obtain ⟨left, rfl, rfl⟩ := letter_next stops next rfl
      exact attempt_eq .finally_ 2 (by decide) (by decide)
        (fun d among => behind d (List.mem_cons_of_mem _ among)) stops
    · rename_i next
      obtain ⟨left, rfl, rfl⟩ := letter_next stops next rfl
      exact attempt_eq .for_ 2 (by decide) (by decide)
        (fun d among => behind d (List.mem_cons_of_mem _ among)) stops
    · rename_i noA noI noO
      apply symbol_classify _ behind stops
      intro keyword spelled
      cases keyword <;> cases spelled
      · exact noA _ rfl
      · exact noI _ rfl
      · exact noO _ rfl
  · exact attempt_eq .if_ 1 (by decide) (by decide) behind stops
  · exact attempt_eq .null 1 (by decide) (by decide) behind stops
  · exact attempt_eq .return_ 1 (by decide) (by decide) behind stops
  · split
    · rename_i next
      obtain ⟨left, rfl, rfl⟩ := letter_next stops next rfl
      exact attempt_eq .throw_ 2 (by decide) (by decide)
        (fun d among => behind d (List.mem_cons_of_mem _ among)) stops
    · rename_i next
      obtain ⟨left, rfl, rfl⟩ := letter_next stops next rfl
      have behind : ∀ d ∈ left, isSymbol standard d = true := fun d among =>
        behind d (List.mem_cons_of_mem _ among)
      split
      · rename_i next
        obtain ⟨left, rfl, rfl⟩ := letter_next stops next rfl
        exact attempt_eq .true_ 3 (by decide) (by decide)
          (fun d among => behind d (List.mem_cons_of_mem _ among)) stops
      · rename_i next
        obtain ⟨left, rfl, rfl⟩ := letter_next stops next rfl
        exact attempt_eq .try_ 3 (by decide) (by decide)
          (fun d among => behind d (List.mem_cons_of_mem _ among)) stops
      · rename_i noU noY
        apply symbol_classify _ behind stops
        intro keyword spelled
        cases keyword <;> cases spelled
        · exact noU _ rfl
        · exact noY _ rfl
    · rename_i noH noR
      apply symbol_classify _ behind stops
      intro keyword spelled
      cases keyword <;> cases spelled
      · exact noH _ rfl
      · exact noR _ rfl
      · exact noR _ rfl
  · exact attempt_eq .while_ 1 (by decide) (by decide) behind stops
  · apply symbol_classify _ symbols stops
    intro keyword spelled
    cases keyword <;> cases spelled <;> contradiction

def Begins (standard : Standard) (c : Char) : Prop :=
  standard.isAlpha c = true ∨ c = '_'

theorem Begins.apart {c : Char} (begins : Begins standard c) {d : Char} (low : d.toNat < 128)
    (other : d.isAlpha = false) (mark : d ≠ '_') : c ≠ d := by
  intro same
  rw [same, Begins, standard.basic d low, other] at begins
  exact begins.elim nofun mark

theorem scan_word {c : Char} (begins : Begins standard c) :
    scan standard (c :: rest) = some (word standard c rest) := by
  rw [scan]
  · exact if_pos begins
  all_goals exact begins.apart (by decide) (by decide) (by decide)

/-- Behind the spaces and the lines without a token, a run of identifier characters that
begins as a word does and goes as far as it can is one token: a keyword if it is the
spelling of that keyword, and otherwise the symbol that it is. -/
theorem words_lexed (standard : Standard) (state after : State) (newline : Bool)
    (run rest : List Char) (skipped : skip standard state = some (after, newline))
    (here : after.input = run ++ rest) (begins : ∃ c ∈ run.head?, Begins standard c)
    (symbols : ∀ c ∈ run, isSymbol standard c = true)
    (stops : ∀ c ∈ rest.head?, isSymbol standard c = false) :
    ∃ token, next standard state =
        some (⟨token, newline, after.indent.length⟩, { after with input := rest }) ∧
      (∀ keyword : Keyword, token = keyword.token ↔ run = keyword.spelling.toList) ∧
      ((∀ keyword : Keyword, run ≠ keyword.spelling.toList) →
        token = .symbol (String.ofList run)) := by
  refine ⟨classify run, ?_, classify_keyword, classify_symbol⟩
  obtain ⟨c, first, begins⟩ := begins
  obtain ⟨tail, rfl⟩ : ∃ tail, run = c :: tail := by
    cases run with
    | nil => cases first
    | cons d tail => exact ⟨tail, by rw [Option.mem_some.mp first]⟩
  have scanned : scan standard after.input = some (classify (c :: tail), rest) := by
    rw [here, List.cons_append, scan_word begins, word_eq symbols stops]
  unfold next
  rw [skipped]
  change ((scan standard after.input).bind _) = _
  rw [scanned]
  rfl

end

theorem words_lexed_for : ∃ token,
    next .portable ⟨['\n', ' ', 'f', 'o', 'r', '_', '.'], []⟩ =
        some (⟨token, true, 1⟩, ⟨['.'], [' ']⟩) ∧
      (∀ keyword : Keyword, token = keyword.token ↔
        ['f', 'o', 'r', '_'] = keyword.spelling.toList) ∧
      ((∀ keyword : Keyword, ['f', 'o', 'r', '_'] ≠ keyword.spelling.toList) →
        token = .symbol (String.ofList ['f', 'o', 'r', '_'])) := by
  have skipped : skip .portable ⟨['\n', ' ', 'f', 'o', 'r', '_', '.'], []⟩ =
      some (⟨['f', 'o', 'r', '_', '.'], [' ']⟩, true) := by
    change (lines .portable [] ['\n', ' ', 'f', 'o', 'r', '_', '.']).map (·, true) = _
    rw [lines]
    rfl
  exact words_lexed .portable _ ⟨_, [' ']⟩ true ['f', 'o', 'r', '_'] ['.'] skipped rfl
    ⟨'f', rfl, .inl rfl⟩ (List.all_eq_true.mp rfl) (by rintro c ⟨⟩; rfl)

end Lexer

end Xemmai
