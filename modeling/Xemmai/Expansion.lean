import Xemmai.Grammar
import Xemmai.Methods

/-!
# Argument expansion

`f_expand` with the operands that `t_call::f_emit` writes behind `CALL_WITH_EXPANSION`, and
what the call is to have for arguments: the plain ones and the elements of the expanded
ones, in order. The stack is `v_estack`, which has as many slots as the fiber has been made
with; nothing looks whether the next one is still of them.
-/

namespace Xemmai.Expansion

set_option autoImplicit false

/-! ### The operands -/

/-- `v_index` of the expands of the arguments from an index on. -/
def expandsFrom : Nat → List Bool → List Nat
  | _, [] => []
  | i, expanded :: rest =>
      if expanded then i :: expandsFrom (i + 1) rest else expandsFrom (i + 1) rest

/-- What the loop of `t_call::f_emit` writes, and the operand behind the loop. -/
def positions (size : Nat) : Nat → List Nat → List Nat
  | i, [] => [size - i]
  | i, index :: rest => (index - i) :: positions size (index + 1) rest

def later : List Nat → List Nat
  | [] => []
  | d :: rest => (d + 1) :: rest

/-! ### The interpreter -/

/-- The value of a `throw`, `f_throw_type_error` with the name of what is checked, or
`f_throw_not_supported`. -/
inductive Thrown (F O : Type)
  | value (value : Value F O)
  | typeError (name : String)
  | notSupported
  deriving DecidableEq, Repr

/-- What keeps a part of `f_expand` from its end: an exception, or a slot behind `v_estack`. -/
inductive Stopped (F O : Type)
  | thrown (thrown : Thrown F O)
  | overflowed
  deriving DecidableEq, Repr

/-- The elements of tuples and lists, and the code behind `size` of other values and `[]` of
other objects. That code runs on the stack from its end on, and leaves there what it leaves. -/
structure Contents (F O W : Type) where
  tuple : Value F O → Option (List (Value F O))
  list : Value F O → W → Option (List (Value F O))
  size : Value F O → W → Except (Thrown F O) (Value F O) × W
  getAt : O → Nat → W → Except (Thrown F O) (Value F O) × W
  scribble : W → Nat → Value F O

/-- `v_estack` of the fiber with the number of its slots, `f_stack()`, and everything else. -/
structure Machine (F O W : Type) where
  stack : Nat → Value F O
  limit : Nat
  top : Nat
  world : W

variable {F O W : Type}

namespace Machine

def write (machine : Machine F O W) (i : Nat) (value : Value F O) : Machine F O W :=
  { machine with stack := fun j => if j = i then value else machine.stack j }

/-- `if (used > f_stack()) f_stack__(used)` -/
def reserve (machine : Machine F O W) (used : Nat) : Machine F O W :=
  { machine with top := if machine.top < used then used else machine.top }

/-- `std::move_backward(p + 1, p + 1 + n, p + m + n)` -/
def moveBackward (machine : Machine F O W) (p n m : Nat) : Machine F O W :=
  { machine with stack := fun j =>
      if p + m ≤ j ∧ j < p + m + n then machine.stack (j - m + 1) else machine.stack j }

/-- `std::move(p + 1, p + 1 + n, p)` -/
def move (machine : Machine F O W) (p n : Nat) : Machine F O W :=
  { machine with stack := fun j =>
      if p ≤ j ∧ j < p + n then machine.stack (j + 1) else machine.stack j }

/-- A call of other code in a `t_scoped_stack` of some slots. -/
def call {α : Type} (contents : Contents F O W) (slots : Nat)
    (f : W → Except (Thrown F O) α × W) (machine : Machine F O W) :
    Except (Stopped F O) α × Machine F O W :=
  if machine.limit < machine.top + slots then (.error .overflowed, machine)
  else
    let after := f machine.world
    (after.1.mapError .thrown,
      { machine with
        stack := fun j => if j < machine.top then machine.stack j else contents.scribble after.2 j
        world := after.2 })

end Machine

/-- `get` of the lambda `expand`. -/
abbrev Getter (F O W : Type) :=
  Nat → Machine F O W → Except (Stopped F O) (Value F O) × Machine F O W

def getAt (contents : Contents F O W) (x : Value F O) : Getter F O W := fun i machine =>
  match x with
  | .object receiver => machine.call contents 3 (contents.getAt receiver i)
  | _ => (.error (.thrown .notSupported), machine)

/-- `for (size_t i = 0; i < m; ++i) *a_stack++ = get(i)`, with `k` turns left. -/
def fill (get : Getter F O W) : Nat → Nat → Nat → Machine F O W →
    Except (Stopped F O) Unit × Machine F O W
  | 0, _, _, machine => (.ok (), machine)
  | k + 1, i, p, machine =>
      match get i machine with
      | (.error stopped, machine) => (.error stopped, machine)
      | (.ok value, machine) => fill get k (i + 1) (p + 1) (machine.write p value)

/-- The lambda `expand` where `n` arguments are left. What comes to the slot before `used` is
the last of these, or the last element. -/
def expand (m : Nat) (get : Getter F O W) (p n : Nat) (machine : Machine F O W) :
    Except (Stopped F O) Unit × Machine F O W :=
  if 0 < m then
    if machine.limit < p + m + n then (.error .overflowed, machine)
    else fill get m 0 p ((machine.reserve (p + m + n)).moveBackward p n m)
  else (.ok (), machine.move p n)

/-- How `f_expand` ends: with the number of arguments and what follows the operands that
have been read, with an exception, behind the end of `v_estack`, or behind that of the code. -/
inductive Ended (F O W : Type)
  | returned (n : Nat) (code : List Nat) (machine : Machine F O W)
  | thrown (thrown : Thrown F O) (machine : Machine F O W)
  | overflowed
  | overrun

def Stopped.ended (machine : Machine F O W) : Stopped F O → Ended F O W
  | .thrown reason => .thrown reason machine
  | .overflowed => .overflowed

variable [Boxed O F]

/-- The branches on the kind of an expanded value: how many elements, and how to get them. -/
def open_ (contents : Contents F O W) (x : Value F O) (machine : Machine F O W) :
    Except (Stopped F O) (Nat × Getter F O W) × Machine F O W :=
  match contents.tuple x with
  | some xs => (.ok (xs.length, fun i machine => (.ok (xs.getD i .null), machine)), machine)
  | none =>
      match contents.list x machine.world with
      | some xs => (.ok (xs.length, fun i machine => (.ok (xs.getD i .null), machine)), machine)
      | none =>
          match machine.call contents 2 (contents.size x) with
          | (.error stopped, machine) => (.error stopped, machine)
          | (.ok size, machine) =>
              match size.toInteger with
              | none => (.error (.thrown (.typeError "size")), machine)
              | some size => (.ok (size.toNat, getAt contents x), machine)

/-- The loop of `f_expand`. -/
def loop (contents : Contents F O W) : List Nat → Nat → Nat → Nat → Machine F O W → Ended F O W
  | [], _, _, _, _ => .overrun
  | d :: code, p, n, count, machine =>
      if count - d = 0 then .returned (n + d) code machine
      else
        match open_ contents (machine.stack (p + d)) machine with
        | (.error stopped, machine) => stopped.ended machine
        | (.ok (m, get), machine) =>
            match expand m get (p + d) (count - d - 1) machine with
            | (.error stopped, machine) => stopped.ended machine
            | (.ok _, machine) =>
                loop contents code (p + d + m) (n + d + m) (count - d - 1) machine

/-- `[]` for each index from one on. -/
def gather (get : Nat → W → Except (Thrown F O) (Value F O) × W) : Nat → Nat → W →
    Except (Thrown F O) (List (Value F O)) × W
  | 0, _, world => (.ok [], world)
  | k + 1, i, world =>
      match get i world with
      | (.error thrown, world) => (.error thrown, world)
      | (.ok value, world) =>
          match gather get k (i + 1) world with
          | (.error thrown, world) => (.error thrown, world)
          | (.ok values, world) => (.ok (value :: values), world)

/-- `[]` of a value: only objects have one. -/
def elementAt (contents : Contents F O W) (x : Value F O) (i : Nat) (world : W) :
    Except (Thrown F O) (Value F O) × W :=
  match x with
  | .object receiver => contents.getAt receiver i world
  | _ => (.error .notSupported, world)

/-- How an expanded value is expanded: the slots that asking for its size and for an element
takes, and how many elements there are, with each of them. -/
structure Source (F O W : Type) where
  sizing : Nat
  getting : Nat
  size : Except (Thrown F O) Nat × W
  get : Nat → W → Except (Thrown F O) (Value F O) × W

def Source.ofList (xs : List (Value F O)) (world : W) : Source F O W :=
  ⟨0, 0, (.ok xs.length, world), fun i world => (.ok (xs.getD i .null), world)⟩

/-- An object that answers `size` and `[]`. -/
def Source.ofObject (contents : Contents F O W) (x : Value F O) (world : W) : Source F O W where
  sizing := 2
  getting := match x with | .object _ => 3 | _ => 0
  size :=
    match contents.size x world with
    | (.error thrown, world) => (.error thrown, world)
    | (.ok size, world) =>
        match size.toInteger with
        | none => (.error (.typeError "size"), world)
        | some size => (.ok size.toNat, world)
  get := elementAt contents x

def source (contents : Contents F O W) (x : Value F O) (world : W) : Source F O W :=
  match contents.tuple x with
  | some xs => .ofList xs world
  | none =>
      match contents.list x world with
      | some xs => .ofList xs world
      | none => .ofObject contents x world

def Source.elements (source : Source F O W) : Except (Thrown F O) (List (Value F O)) × W :=
  match source.size with
  | (.error thrown, world) => (.error thrown, world)
  | (.ok size, world) => gather source.get size 0 world

/-- Plain arguments and the elements of expanded ones, in order. -/
def concatenation (contents : Contents F O W) : List (Bool × Value F O) → W →
    Except (Thrown F O) (List (Value F O)) × W
  | [], world => (.ok [], world)
  | (expanded, x) :: rest, world =>
      match if expanded then (source contents x world).elements else (.ok [x], world) with
      | (.error thrown, world) => (.error thrown, world)
      | (.ok values, world) =>
          match concatenation contents rest world with
          | (.error thrown, world) => (.error thrown, world)
          | (.ok others, world) => (.ok (values ++ others), world)

/-- `f_stack()` behind `expand`. -/
def raised (m p n top : Nat) : Nat :=
  if m = 0 then top else max top (p + m + n)

/-- The slots of the stack that the arguments from the one at `p` on take while they are
expanded, with those for the calls of `size` and `[]`. -/
def needed (contents : Contents F O W) : List (Bool × Value F O) → Nat → Nat → W → Nat
  | [], _, top, _ => top
  | (false, _) :: rest, p, top, world => needed contents rest (p + 1) top world
  | (true, x) :: rest, p, top, world =>
      let source := source contents x world
      max (top + source.sizing)
        (match source.size.1 with
        | .error _ => top
        | .ok m =>
            let high := raised m p rest.length top
            max (if m = 0 then top else high + source.getting)
              (match source.elements with
              | (.error _, _) => high
              | (.ok _, world) => needed contents rest (p + m) high world))

/-! ### The operands of the arguments -/

section Operands

variable {marks : List Bool}

/-- `f_arguments` notes the places of the arguments behind an asterisk. -/
theorem expands_of_derives {grammar : Parser.Grammar} {others : Parser.Others} {depth : Nat}
    {phrase : Parser.Phrase} {next : Option Token} {tokens : List Token}
    (derives : Parser.Derives grammar others depth phrase next tokens) :
    ∀ before after, phrase = .arguments before after → ∃ marks : List Bool,
      after.1.length = before.1.length + marks.length ∧
        after.2 = before.2 ++ expandsFrom before.1.length marks := by
  induction derives with
  | @lastArgument expanded before node =>
      intro before' after same
      cases same
      refine ⟨[expanded], by simp [Parser.argued], ?_⟩
      cases expanded <;> simp [Parser.argued, expandsFrom]
  | @argument expanded before node after next tokens behind expression arguments _ induction =>
      intro before' after' same
      cases same
      obtain ⟨marks, length, expands⟩ := induction _ _ rfl
      refine ⟨expanded :: marks, ?_, ?_⟩
      · rw [length, List.length_cons]
        simp only [Parser.argued, List.length_append, List.length_singleton]
        omega
      · rw [expands]
        cases expanded <;> simp [Parser.argued, expandsFrom]
  | _ =>
      intro before after other
      cases other

end Operands

/-! ### Filling the stack -/

/-- Code that has been called has changed of the stack only what is behind its end. -/
structure Behind (before : Machine F O W) (world : W) (after : Machine F O W) : Prop where
  world : after.world = world
  limit : after.limit = before.limit
  top : after.top = before.top
  keeps : ∀ j < before.top, after.stack j = before.stack j

/-- What is on the stack and in the world after the part before `p` has been kept. -/
structure Kept (before : Machine F O W) (p : Nat) (world : W) (after : Machine F O W) : Prop where
  world : after.world = world
  limit : after.limit = before.limit
  top : before.top ≤ after.top
  keeps : ∀ j < p, after.stack j = before.stack j

omit [Boxed O F] in
theorem Kept.refl (machine : Machine F O W) (p : Nat) : Kept machine p machine.world machine :=
  ⟨rfl, rfl, Nat.le_refl _, fun _ _ => rfl⟩

omit [Boxed O F] in
theorem Kept.trans {first second third : Machine F O W} {p : Nat} {world world' : W}
    (kept : Kept first p world second) (kept' : Kept second p world' third) :
    Kept first p world' third := by
  refine ⟨kept'.world, kept'.limit.trans kept.limit, kept.top.trans kept'.top, ?_⟩
  intro j below
  rw [kept'.keeps j below, kept.keeps j below]

omit [Boxed O F] in
theorem Kept.mono {first second : Machine F O W} {p q : Nat} {world : W}
    (kept : Kept first q world second) (less : p ≤ q) : Kept first p world second :=
  ⟨kept.world, kept.limit, kept.top, fun j below => kept.keeps j (Nat.lt_of_lt_of_le below less)⟩

omit [Boxed O F] in
theorem Behind.kept {before after : Machine F O W} {world : W} {p : Nat}
    (behind : Behind before world after) (below : p ≤ before.top) : Kept before p world after :=
  ⟨behind.world, behind.limit, Nat.le_of_eq behind.top.symm,
    fun j short => behind.keeps j (Nat.lt_of_lt_of_le short below)⟩

/-- The values are on the stack from `p` on. -/
def Machine.Holds (machine : Machine F O W) (p : Nat) (values : List (Value F O)) : Prop :=
  ∀ j, (short : j < values.length) → machine.stack (p + j) = values[j]

section Fill

variable {slots : Nat} {getter : Getter F O W}
  {get : Nat → W → Except (Thrown F O) (Value F O) × W}

end Fill

/-! ### The loop -/

section Loop

variable (contents : Contents F O W)

/-- How the loop is to end where some arguments are left, from the one at `p` on. -/
def Ends (arguments : List (Bool × Value F O)) (code : List Nat) (p n : Nat)
    (machine : Machine F O W) (ended : Ended F O W) : Prop :=
  if needed contents arguments p machine.top machine.world ≤ machine.limit then
    match concatenation contents arguments machine.world with
    | (.ok values, world) => ∃ after, ended = .returned (n + values.length) code after ∧
        Kept machine p world after ∧ after.Holds p values ∧ p + values.length ≤ after.top
    | (.error thrown, world) => ∃ after, ended = .thrown thrown after ∧
        Kept machine p world after
  else ended = .overflowed

section Ends

variable {contents} {rest : List (Bool × Value F O)} {code : List Nat} {x : Value F O}
  {p n : Nat} {machine : Machine F O W} {ended : Ended F O W}

theorem Ends.plain (first : machine.stack p = x)
    (ends : Ends contents rest code (p + 1) (n + 1) machine ended) :
    Ends contents ((false, x) :: rest) code p n machine ended := by
  unfold Ends at ends ⊢
  have slots : needed contents ((false, x) :: rest) p machine.top machine.world =
      needed contents rest (p + 1) machine.top machine.world := rfl
  have joined : concatenation contents ((false, x) :: rest) machine.world =
      match concatenation contents rest machine.world with
      | (.error thrown, world) => (.error thrown, world)
      | (.ok others, world) => (.ok (x :: others), world) := rfl
  rw [slots, joined]
  split
  next fits =>
    rw [if_pos fits] at ends
    generalize concatenation contents rest machine.world = concatenated at ends ⊢
    obtain ⟨outcome, world⟩ := concatenated
    cases outcome with
    | error thrown =>
        obtain ⟨after, run, kept⟩ := ends
        exact ⟨after, run, kept.mono (Nat.le_succ p)⟩
    | ok values =>
        obtain ⟨after, run, kept, values', high⟩ := ends
        refine ⟨after, ?_, kept.mono (Nat.le_succ p), ?_, ?_⟩
        · rw [run, List.length_cons, Nat.add_assoc, Nat.add_comm 1]
        · intro j short
          cases j with
          | zero => exact (kept.keeps p (Nat.lt_succ_self p)).trans first
          | succ j =>
              have place : p + (j + 1) = p + 1 + j := by omega
              rw [place, values' j (by simpa using short)]
              rfl
        · rw [List.length_cons]
          omega
  next beyond =>
    rw [if_neg beyond] at ends
    exact ends

omit [Boxed O F] in
/-- The values at `p` and those behind them. -/
theorem Machine.Holds.append {machine : Machine F O W} {values others : List (Value F O)}
    (front : machine.Holds p values) (back : machine.Holds (p + values.length) others) :
    machine.Holds p (values ++ others) := by
  intro j short
  rcases Nat.lt_or_ge j values.length with before | behind
  · rw [List.getElem_append_left before]
    exact front j before
  · have place : p + j = p + values.length + (j - values.length) := by omega
    rw [List.length_append] at short
    rw [List.getElem_append_right behind, place]
    exact back _ (by omega)

/-- The elements of an expanded argument come into its place, and then the loop goes on. -/
theorem Ends.expanded {next : Machine F O W} {values : List (Value F O)}
    {world : W} (elements : (source contents x machine.world).elements = (.ok values, world))
    (kept : Kept machine p world next) (holds : next.Holds p values)
    (fits : needed contents ((true, x) :: rest) p machine.top machine.world ≤ machine.limit ↔
      needed contents rest (p + values.length) next.top world ≤ machine.limit)
    (ends : Ends contents rest code (p + values.length) (n + values.length) next ended) :
    Ends contents ((true, x) :: rest) code p n machine ended := by
  unfold Ends at ends ⊢
  have joined : concatenation contents ((true, x) :: rest) machine.world =
      match concatenation contents rest world with
      | (.error thrown, world) => (.error thrown, world)
      | (.ok others, world) => (.ok (values ++ others), world) := by
    rw [concatenation, if_pos rfl, elements]
  rw [joined]
  rw [kept.limit, kept.world] at ends
  split
  next within =>
    rw [if_pos (fits.mp within)] at ends
    generalize concatenation contents rest world = concatenated at ends ⊢
    obtain ⟨outcome, last⟩ := concatenated
    cases outcome with
    | error thrown =>
        obtain ⟨after, run, kept'⟩ := ends
        exact ⟨after, run, kept.trans (kept'.mono (Nat.le_add_right _ _))⟩
    | ok others =>
        obtain ⟨after, run, kept', others', high⟩ := ends
        refine ⟨after, ?_, kept.trans (kept'.mono (Nat.le_add_right _ _)), ?_, ?_⟩
        · rw [run, List.length_append, Nat.add_assoc]
        · refine Machine.Holds.append ?_ others'
          intro j short
          rw [kept'.keeps _ (by omega)]
          exact holds j short
        · rw [List.length_append]
          omega
  next beyond =>
    rw [if_neg (fun within => beyond (fits.mpr within))] at ends
    exact ends

theorem Ends.thrown {after : Machine F O W} {thrown : Thrown F O} {world : W}
    (elements : (source contents x machine.world).elements = (.error thrown, world))
    (fits : needed contents ((true, x) :: rest) p machine.top machine.world ≤ machine.limit)
    (kept : Kept machine p world after) :
    Ends contents ((true, x) :: rest) code p n machine (.thrown thrown after) := by
  unfold Ends
  have joined : concatenation contents ((true, x) :: rest) machine.world =
      (.error thrown, world) := by
    rw [concatenation, if_pos rfl, elements]
  rw [if_pos fits, joined]
  exact ⟨after, rfl, kept⟩

theorem Ends.overflowed {arguments : List (Bool × Value F O)}
    (short : machine.limit < needed contents arguments p machine.top machine.world) :
    Ends contents arguments code p n machine .overflowed := by
  unfold Ends
  rw [if_neg (Nat.not_le.mpr short)]

end Ends

end Loop

/-- A tuple of two values for `false`, and two elements for `true`. -/
def pairs : Contents Int Bool Nat where
  tuple
    | .object false => some [.boolean true, .boolean false]
    | _ => none
  list _ _ := none
  size _ world := (.ok (.integer 2), world + 1)
  getAt _ i world := (.ok (.integer i), world + 1)
  scribble _ _ := .null

instance plainPair : Boxed Bool Int where
  asInteger _ := none
  asFloat _ := none

end Xemmai.Expansion
