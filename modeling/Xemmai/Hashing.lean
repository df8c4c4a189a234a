import Xemmai.Tuple

/-!
# Equal values and their hashes

An integer and a float may be equal, while the one is its own hash and the hash of
the other is what `std::hash` gives. A tuple takes the exclusive or of the hashes of
its elements, so what is left of the two hashes of equal values comes from the places
where an integer meets a float.
-/

namespace Xemmai

set_option autoImplicit false

/-- A value whose objects are strings, symbols and tuples. -/
inductive Key (F C : Type)
  | null
  | boolean (value : Bool)
  | integer (value : Word)
  | float (value : F)
  | string (text : List C)
  | symbol (address : Word)
  | tuple (address : Word) (items : List (Key F C))

namespace Key

variable {F C : Type}

section

variable [DecidableEq C] [Double F]

/-- `t_type_of<intptr_t>::f__equals`; none of the objects is derived from an integer. -/
def integerEquals (self : Word) : Key F C → Bool
  | .integer value => self == value
  | .float value => Double.equals (Double.ofInteger self) value
  | _ => false

/-- `t_type_of<double>::f__equals` -/
def floatEquals (self : F) : Key F C → Bool
  | .integer value => Double.equals self (Double.ofInteger value)
  | .float value => Double.equals self value
  | _ => false

mutual

def equals : Key F C → Key F C → Bool
  | .null, .null => true
  | .boolean left, .boolean right => left == right
  | .integer left, right => integerEquals left right
  | .float left, right => floatEquals left right
  | .string left, .string right => left == right
  | .symbol left, .symbol right => left == right
  | .tuple this left, .tuple other right =>
    if this = other then true
    else if left.length = right.length then equalsItems left right
    else false
  | _, _ => false

def equalsItems : List (Key F C) → List (Key F C) → Bool
  | x :: xs, y :: ys => if !equals x y then false else equalsItems xs ys
  | _, _ => true

end

end

section

variable (hashFloat : F → Word) (hashText : List C → Word)

mutual

/-- `t_value::f_hash`; without a method of its own a value gives its tag. -/
def hash : Key F C → Word
  | .null => 0
  | .boolean false => 1
  | .boolean true => 2
  | .integer value => value
  | .float value => hashFloat value
  | .string text => hashText text
  | .symbol address => address
  | .tuple _ items => hashItems 0 items

/-- `for (...) n ^= (*this)[i].f_hash();` -/
def hashItems : Word → List (Key F C) → Word
  | n, [] => n
  | n, x :: xs => hashItems (n ^^^ hash x) xs

end

mutual

def mixed : Key F C → Key F C → Word
  | .integer number, .float value => number ^^^ hashFloat value
  | .float value, .integer number => hashFloat value ^^^ number
  | .tuple _ left, .tuple _ right => mixedItems left right
  | _, _ => 0

def mixedItems : List (Key F C) → List (Key F C) → Word
  | x :: xs, y :: ys => mixed x y ^^^ mixedItems xs ys
  | _, _ => 0

end

end

mutual

/-- The tuples of the value are those of the heap. -/
def Stored (heap : Word → List (Key F C)) : Key F C → Prop
  | .tuple address items => heap address = items ∧ StoredItems heap items
  | _ => True

def StoredItems (heap : Word → List (Key F C)) : List (Key F C) → Prop
  | [] => True
  | x :: xs => Stored heap x ∧ StoredItems heap xs

end

section

variable {heap : Word → List (Key F C)}

theorem equals_items_iff [DecidableEq C] [Double F] {xs ys : List (Key F C)}
    (same : xs.length = ys.length) : equalsItems xs ys = true ↔ TTuple.Same equals xs ys := by
  induction xs generalizing ys with
  | nil =>
    obtain rfl := List.eq_nil_of_length_eq_zero same.symm
    exact iff_of_true (by simp [equalsItems]) .nil
  | cons x xs step =>
    obtain ⟨y, ys, rfl⟩ := List.exists_cons_of_length_eq_add_one same.symm
    have rest := step (Nat.succ.inj same)
    unfold TTuple.Same at rest ⊢
    rw [equalsItems, List.forall₂_cons, ← rest]
    cases equals x y <;> simp

/-- On tuples the equality is `t_tuple::f_equals` with itself for the elements. -/
theorem equals_tuple [DecidableEq C] [Double F] (this other : Word) :
    equals (.tuple this (heap this)) (.tuple other (heap other)) =
      TTuple.doEquals equals heap this (.tuple other) := by
  simp only [equals, TTuple.doEquals]
  split
  · rfl
  · split
    case isTrue same =>
      rw [Bool.eq_iff_iff, equals_items_iff same, TTuple.equals_from_iff]
      rfl
    case isFalse => rfl

/-- On tuples the hash is `t_tuple::f_hash` with itself for the elements. -/
theorem hash_tuple (hashFloat : F → Word) (hashText : List C → Word) (this : Word) :
    hash hashFloat hashText (.tuple this (heap this)) =
      TTuple.doHash (hash hashFloat hashText) heap this := by
  rw [hash, TTuple.doHash, TTuple.hashOf]
  generalize (0 : Word) = n
  induction heap this generalizing n with
  | nil => rfl
  | cons x xs step =>
    rw [hashItems, List.foldl_cons]
    exact step _

end

section

variable {hashFloat : F → Word} {hashText : List C → Word}

mutual

theorem mixed_self : ∀ x : Key F C, mixed hashFloat x x = 0
  | .null | .boolean _ | .integer _ | .float _ | .string _ | .symbol _ => by simp [mixed]
  | .tuple _ items => by
    rw [mixed]
    exact mixed_items_self items

theorem mixed_items_self : ∀ xs : List (Key F C), mixedItems hashFloat xs xs = 0
  | [] => by simp [mixedItems]
  | x :: xs => by
    rw [mixedItems, mixed_self x, mixed_items_self xs]
    rfl

end

variable [DecidableEq C] [Double F] {heap : Word → List (Key F C)}

/-- `std::hash` of equal doubles. -/
def Agrees (hashFloat : F → Word) : Prop :=
  ∀ left right : F, Double.equals left right = true → hashFloat left = hashFloat right

mutual

/-- The hashes of equal values differ by what is mixed in them. -/
theorem hash_xor (agrees : Agrees hashFloat) : ∀ x y : Key F C, Stored heap x → Stored heap y → equals x y = true →
    hash hashFloat hashText x ^^^ hash hashFloat hashText y = mixed hashFloat x y
  | .null, y, _, _, same => by
    cases y <;> simp [equals] at same
    simp [hash, mixed]
  | .boolean left, y, _, _, same => by
    cases y <;> simp [equals] at same
    subst same
    simp [mixed]
  | .integer left, y, _, _, same => by
    cases y <;> simp [equals, integerEquals] at same
    · subst same
      simp [mixed]
    · simp [hash, mixed]
  | .float left, y, _, _, same => by
    cases y <;> simp [equals, floatEquals] at same
    · simp [hash, mixed]
    · simp [hash, mixed, agrees _ _ same]
  | .string left, y, _, _, same => by
    cases y <;> simp [equals] at same
    subst same
    simp [mixed]
  | .symbol left, y, _, _, same => by
    cases y <;> simp [equals] at same
    subst same
    simp [mixed]
  | .tuple this left, y, stored, stored', same => by
    cases y with
    | tuple other right =>
      simp only [equals] at same
      split at same
      case isTrue here =>
        subst here
        obtain rfl : left = right := stored.1.symm.trans stored'.1
        rw [BitVec.xor_self, mixed_self]
        rfl
      case isFalse =>
        split at same
        case isTrue length =>
          have items := hash_items_xor agrees left right 0 0 stored.2 stored'.2 length same
          simpa [hash, mixed] using items
        case isFalse => cases same
    | _ => simp [equals] at same

theorem hash_items_xor (agrees : Agrees hashFloat) : ∀ (xs ys : List (Key F C)) (m n : Word), StoredItems heap xs →
    StoredItems heap ys → xs.length = ys.length → equalsItems xs ys = true →
    hashItems hashFloat hashText m xs ^^^ hashItems hashFloat hashText n ys =
      m ^^^ n ^^^ mixedItems hashFloat xs ys
  | [], [], m, n, _, _, _, _ => by simp [hashItems, mixedItems]
  | x :: xs, y :: ys, m, n, stored, stored', length, same => by
    rw [equalsItems] at same
    split at same
    case isTrue => cases same
    case isFalse equal =>
      have first := hash_xor agrees x y stored.1 stored'.1 (by simpa using equal)
      rw [hashItems, hashItems, hash_items_xor agrees xs ys _ _ stored.2 stored'.2
        (Nat.succ.inj length) same, mixedItems, ← first]
      ac_rfl
  | [], _ :: _, _, _, _, _, length, _ => nomatch length
  | _ :: _, [], _, _, _, _, length, _ => nomatch length

end

/-- Equal values have equal hashes if and only if nothing is left of what is mixed where
an integer meets a float. -/
theorem equal_hashes_iff (agrees : Agrees hashFloat) {x y : Key F C}
    (stored : Stored heap x) (stored' : Stored heap y) (same : equals x y = true) :
    hash hashFloat hashText x = hash hashFloat hashText y ↔ mixed hashFloat x y = 0 := by
  rw [← hash_xor agrees x y stored stored' same]
  exact BitVec.xor_eq_zero_iff.symm

end

def bits (value : Int) : Word := if value = 0 then 0 else 0x3ff0000000000000

theorem agrees_bits : Agrees bits := by
  intro left right same
  rw [of_decide_eq_true same]

/-- A pair of an integer and a string, and another one. -/
theorem equal_hashes_pairs :
    let items : List (Key Int Nat) := [.integer 1, .string [97]]
    Agrees bits ∧ Stored (fun _ => items) (.tuple 1 items) ∧
      Stored (fun _ => items) (.tuple 2 items) ∧
      equals (.tuple 1 items) (.tuple 2 items) = true ∧
      hash bits (fun text => text.length) (.tuple 1 items) =
        hash bits (fun text => text.length) (.tuple 2 items) := by
  intro items
  have stored : ∀ address, Stored (fun _ => items) (.tuple address items) :=
    fun _ => ⟨rfl, trivial, trivial, trivial⟩
  have same : equals (.tuple 1 items) (.tuple 2 items) = true := by decide
  refine ⟨agrees_bits, stored 1, stored 2, same, ?_⟩
  exact (equal_hashes_iff agrees_bits (stored 1) (stored 2) same).mpr (by decide)

/-- One is equal to the float that it converts to, but is its own hash. -/
theorem integer_equals_float :
    Agrees bits ∧ Stored (fun _ => []) (.integer 1 : Key Int Nat) ∧
      Stored (fun _ => []) (.float 1 : Key Int Nat) ∧
      equals (.integer 1) (.float 1 : Key Int Nat) = true ∧
      hash bits (fun text => text.length) (.integer 1 : Key Int Nat) ≠
        hash bits (fun text => text.length) (.float 1 : Key Int Nat) :=
  ⟨agrees_bits, trivial, trivial, by decide, by decide⟩

end Key

end Xemmai
