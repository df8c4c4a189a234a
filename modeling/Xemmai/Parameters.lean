import Xemmai.Allocation

/-!
# Parameters

A lambda from what the parser knows of its parameters to the frame in which its body
starts: `t_lambda::f_code`, `LAMBDA` and `ADVANCED_LAMBDA`, `f__do_call` of the four types
of lambdas, and the copies at the start of the code to the scope.
-/

namespace Xemmai.Parameters

set_option autoImplicit false

/-- `ast::t_lambda` when it has been parsed. `shared` is the place in the scope of the
parameters that nested lambdas use. -/
structure Lambda where
  arguments : Nat
  defaults : Nat
  variadic : Bool
  isShared : Bool
  selfShared : Bool
  privates : Nat
  shareds : Nat
  shared : Nat → Option Nat
  fewer : defaults + variadic.toNat ≤ arguments
  within : arguments ≤ privates
  inScope : ∀ i < arguments, ∀ j, shared i = some j →
    isShared = true ∧ selfShared.toNat ≤ j ∧ j < shareds
  apart : ∀ i < arguments, ∀ k < arguments, ∀ j, shared i = some j → shared k = some j → i = k
  itself : selfShared = true → isShared = true ∧ 0 < shareds

/-- `t_code` -/
structure Code where
  shared : Bool
  variadic : Bool
  privates : Nat
  shareds : Nat
  arguments : Nat
  minimum : Nat

/-- `t_lambda` and `t_lambda_shared`, and what `t_advanced_lambda` adds to each, with
`v_defaults`, which is null where there are none. -/
inductive Function (V : Type)
  | lambda (code : Code)
  | advanced (code : Code) (defaults : Option (List V))

/-- What a call throws; `undefined` is a null `v_defaults` or a null scope that is used. -/
inductive Refused
  | message (text : String)
  | undefined
  deriving DecidableEq, Repr

/-- The instructions that a lambda starts with: `SELF` and `SCOPE_PUT0` of the first place,
`STACK_GET` and `SCOPE_PUT0` of a parameter. -/
inductive Copy
  | self
  | parameter (i j : Nat)
  deriving DecidableEq, Repr

/-- The stack from the slot of the callee on, and the entries of the scope. -/
structure Frame (V : Type) where
  stack : Nat → V
  scope : Option (Nat → V)

namespace Lambda

variable (lambda : Lambda)

def code : Code where
  shared := lambda.isShared
  variadic := lambda.variadic
  privates := lambda.privates
  shareds := lambda.shareds
  arguments := lambda.arguments
  minimum :=
    if lambda.variadic then lambda.arguments - lambda.defaults - 1
    else lambda.arguments - lambda.defaults

/-- The start of the code in `f_emit`. -/
def copies : List Copy :=
  (if lambda.selfShared then [.self] else []) ++
    (List.range lambda.arguments).filterMap fun i => (lambda.shared i).map (.parameter i)

end Lambda

section

variable {V : Type}

/-- `a_stack[i]` up to a number of them. -/
def slots (stack : Nat → V) (start n : Nat) : List V :=
  (List.range n).map fun i => stack (start + i)

/-- `LAMBDA` or `ADVANCED_LAMBDA`, whichever `f_emit` writes, with the values of the
defaults on the stack. -/
def Lambda.instantiate (lambda : Lambda) (stack : Nat → V) : Function V :=
  if lambda.variadic = true ∨ 0 < lambda.defaults then
    let code := lambda.code
    let n := if code.variadic then code.arguments - code.minimum - 1
      else code.arguments - code.minimum
    .advanced code (if 0 < n then some (slots stack 0 n) else none)
  else .lambda lambda.code

def write (stack : Nat → V) (i : Nat) (value : V) : Nat → V :=
  fun j => if j = i then value else stack j

def fillDefaults (t1 : Nat) : List V → Nat → (Nat → V) → Nat → V
  | [], _, stack => stack
  | value :: rest, i, stack => fillDefaults t1 rest (i + 1) (write stack (t1 + i) value)

/-- `f__do_call` up to `f_call`; `tuple` is a new tuple. -/
def Function.check (tuple : List V → V) (stack : Nat → V) (n : Nat) :
    Function V → Except Refused (Nat → V)
  | .lambda code =>
      if n ≠ code.arguments then .error (.message "invalid number of arguments.") else .ok stack
  | .advanced code defaults =>
      if n < code.minimum then .error (.message "too few arguments.")
      else
        let arguments := if code.variadic then code.arguments - 1 else code.arguments
        if code.variadic = false ∧ arguments < n then .error (.message "too many arguments.")
        else if n < arguments then
          match defaults with
          | none => .error .undefined
          | some t0 =>
              let stack := fillDefaults (code.minimum + 2) (t0.drop (n - code.minimum))
                (n - code.minimum) stack
              .ok (if code.variadic then write stack (code.arguments + 1) (tuple []) else stack)
        else if code.variadic then
          .ok (write stack (arguments + 2) (tuple (slots stack (arguments + 2) (n - arguments))))
        else .ok stack

def Function.code : Function V → Code
  | .lambda code => code
  | .advanced code _ => code

/-- `f_call` of `t_lambda` and of `t_lambda_shared`; the entries of a new scope are null. -/
def enter (null : V) (code : Code) (stack : Nat → V) : Frame V :=
  ⟨stack, if code.shared then some fun _ => null else none⟩

/-- `SCOPE_PUT0` -/
def Frame.put (frame : Frame V) (j : Nat) (value : V) : Except Refused (Frame V) :=
  match frame.scope with
  | none => .error .undefined
  | some entries => .ok { frame with scope := some (write entries j value) }

/-- The slot behind the privates is used for the copies. -/
def Frame.copy (privates : Nat) (frame : Frame V) : Copy → Except Refused (Frame V)
  | .self =>
      let frame := { frame with stack := write frame.stack (2 + privates) (frame.stack 1) }
      frame.put 0 (frame.stack (2 + privates))
  | .parameter i j =>
      let frame := { frame with stack := write frame.stack (2 + privates) (frame.stack (2 + i)) }
      frame.put j (frame.stack (2 + privates))

def Lambda.call (lambda : Lambda) (tuple : List V → V) (null : V) (function : Function V)
    (stack : Nat → V) (n : Nat) : Except Refused (Frame V) := do
  let stack ← function.check tuple stack n
  lambda.copies.foldlM (Frame.copy function.code.privates) (enter null function.code stack)

def Frame.parameter (frame : Frame V) (lambda : Lambda) (i : Nat) : Option V :=
  match lambda.shared i with
  | none => some (frame.stack (2 + i))
  | some j => frame.scope.map fun entries => entries j

end

/-! ### The parameters at the start of the body -/

def Lambda.required (lambda : Lambda) : Nat :=
  lambda.arguments - lambda.defaults - lambda.variadic.toNat

def Lambda.Refuses (lambda : Lambda) (n : Nat) : Prop :=
  n < lambda.required ∨ lambda.variadic = false ∧ lambda.required + lambda.defaults < n

instance (lambda : Lambda) (n : Nat) : Decidable (lambda.Refuses n) :=
  inferInstanceAs (Decidable (_ ∨ _))

/-- The value of a parameter that is no rest parameter, of a call with `n` arguments and
defaults that had been on the stack. -/
def Lambda.bound {V : Type} (lambda : Lambda) (created stack : Nat → V) (n i : Nat) : V :=
  if i < n then stack (2 + i) else created (i - lambda.required)

/-- Every parameter has its value. -/
structure Binds {V : Type} (lambda : Lambda) (tuple : List V → V) (created stack : Nat → V)
    (n : Nat) (frame : Frame V) : Prop where
  parameter : ∀ i < lambda.required + lambda.defaults,
    frame.parameter lambda i = some (lambda.bound created stack n i)
  rest : lambda.variadic = true →
    frame.parameter lambda (lambda.required + lambda.defaults) =
      some (tuple (slots stack (2 + (lambda.required + lambda.defaults))
        (n - (lambda.required + lambda.defaults))))

section Check

variable {V : Type} {tuple : List V → V} {null : V}

theorem fillDefaults_eq (t1 : Nat) (values : List V) (i : Nat) (stack : Nat → V) (j : Nat) :
    fillDefaults t1 values i stack j =
      if t1 + i ≤ j then values.getD (j - (t1 + i)) (stack j) else stack j := by
  induction values generalizing i stack with
  | nil => simp [fillDefaults]
  | cons value values induction =>
      rw [fillDefaults, induction]
      rcases Nat.lt_trichotomy j (t1 + i) with below | here | above
      · have other : write stack (t1 + i) value j = stack j := if_neg (by omega)
        rw [if_neg (by omega), if_neg (by omega), other]
      · subst here
        have itself : write stack (t1 + i) value (t1 + i) = value := if_pos rfl
        rw [if_neg (by omega), if_pos (Nat.le_refl _), itself, Nat.sub_self, List.getD_cons_zero]
      · have other : write stack (t1 + i) value j = stack j := if_neg (by omega)
        have place : j - (t1 + i) = j - (t1 + (i + 1)) + 1 := by omega
        rw [if_pos (by omega), if_pos (by omega), other, place, List.getD_cons_succ]

theorem slots_getD (stack : Nat → V) (start n i : Nat) (value : V) :
    (slots stack start n).getD i value = if i < n then stack (start + i) else value := by
  unfold slots
  by_cases short : i < n
  · simp [short]
  · simp [short]

theorem getD_drop (values : List V) (k i : Nat) (value : V) :
    (values.drop k).getD i value = values.getD (k + i) value := by
  simp [List.getD_eq_getElem?_getD]

theorem counts (lambda : Lambda) :
    lambda.required + lambda.defaults + lambda.variadic.toNat = lambda.arguments ∧
      lambda.code.minimum = lambda.required := by
  have fewer := lambda.fewer
  unfold Lambda.required Lambda.code
  cases variadic : lambda.variadic with
  | true =>
      simp only [variadic, Bool.toNat_true, if_true] at fewer ⊢
      exact ⟨by omega, trivial⟩
  | false =>
      simp only [variadic, Bool.toNat_false, Bool.false_eq_true, if_false] at fewer ⊢
      exact ⟨by omega, rfl⟩

/-- What is on the stack when a call has been taken. -/
structure Placed (lambda : Lambda) (tuple : List V → V) (created stack : Nat → V) (n : Nat)
    (after : Nat → V) : Prop where
  parameter : ∀ i < lambda.required + lambda.defaults,
    after (2 + i) = lambda.bound created stack n i
  rest : lambda.variadic = true →
    after (2 + (lambda.required + lambda.defaults)) =
      tuple (slots stack (2 + (lambda.required + lambda.defaults))
        (n - (lambda.required + lambda.defaults)))

/-- The call is refused as it is to be, or else the parameters are in their places. -/
structure Settles (lambda : Lambda) (tuple : List V → V) (created stack : Nat → V) (n : Nat)
    (result : Except Refused (Nat → V)) : Prop where
  refuses : lambda.Refuses n → ∃ text, result = .error (.message text)
  takes : ¬lambda.Refuses n → ∃ after, result = .ok after ∧
    Placed lambda tuple created stack n after

theorem check_lambda (lambda : Lambda) (created stack : Nat → V) (n : Nat)
    (fixed : lambda.variadic = false) (none : lambda.defaults = 0) :
    Settles lambda tuple created stack n
      ((lambda.instantiate created).check tuple stack n) := by
  obtain ⟨sum, _⟩ := counts lambda
  have checked : (lambda.instantiate created).check tuple stack n =
      if n ≠ lambda.arguments then .error (.message "invalid number of arguments.")
      else .ok stack := by
    unfold Lambda.instantiate
    rw [if_neg (by simp [fixed, none])]
    rfl
  rw [fixed, Bool.toNat_false] at sum
  rw [checked]
  constructor
  · intro refuses
    unfold Lambda.Refuses at refuses
    rw [if_pos (by omega)]
    exact ⟨_, rfl⟩
  · intro takes
    simp only [Lambda.Refuses, fixed, true_and] at takes
    rw [if_neg (by omega)]
    refine ⟨stack, rfl, ?_, ?_⟩
    · intro i inside
      unfold Lambda.bound
      rw [if_pos (by omega)]
    · intro variadic
      rw [fixed] at variadic
      cases variadic

/-- `v_defaults` of an advanced lambda has the defaults. -/
theorem instantiate_advanced (lambda : Lambda) (created : Nat → V)
    (advanced : lambda.variadic = true ∨ 0 < lambda.defaults) :
    lambda.instantiate created = .advanced lambda.code
      (if 0 < lambda.defaults then some (slots created 0 lambda.defaults) else none) := by
  obtain ⟨sum, minimum⟩ := counts lambda
  have number : (if lambda.code.variadic then lambda.code.arguments - lambda.code.minimum - 1
      else lambda.code.arguments - lambda.code.minimum) = lambda.defaults := by
    rw [minimum]
    change (if lambda.variadic = true then lambda.arguments - lambda.required - 1
      else lambda.arguments - lambda.required) = lambda.defaults
    cases variadic : lambda.variadic with
    | true =>
        rw [variadic, Bool.toNat_true] at sum
        rw [if_pos rfl]
        omega
    | false =>
        rw [variadic, Bool.toNat_false] at sum
        rw [if_neg Bool.false_ne_true]
        omega
  unfold Lambda.instantiate
  rw [if_pos advanced]
  simp only [number]

theorem check_advanced (lambda : Lambda) (created stack : Nat → V) (n : Nat)
    (advanced : lambda.variadic = true ∨ 0 < lambda.defaults) :
    Settles lambda tuple created stack n
      ((lambda.instantiate created).check tuple stack n) := by
  obtain ⟨sum, minimum⟩ := counts lambda
  have arguments : (if lambda.variadic = true then lambda.arguments - 1 else lambda.arguments) =
      lambda.required + lambda.defaults := by
    cases variadic : lambda.variadic with
    | true =>
        rw [variadic, Bool.toNat_true] at sum
        rw [if_pos rfl]
        omega
    | false =>
        rw [variadic, Bool.toNat_false] at sum
        rw [if_neg Bool.false_ne_true]
        omega
  have variadic : lambda.code.variadic = lambda.variadic := rfl
  have whole : lambda.code.arguments = lambda.arguments := rfl
  rw [instantiate_advanced lambda created advanced]
  simp only [Function.check, minimum, variadic, whole, arguments]
  constructor
  · rintro (few | ⟨fixed, many⟩)
    · rw [if_pos few]
      exact ⟨_, rfl⟩
    · rw [if_neg (by omega), if_pos ⟨fixed, many⟩]
      exact ⟨_, rfl⟩
  · intro takes
    unfold Lambda.Refuses at takes
    rw [not_or] at takes
    obtain ⟨enough, fewer⟩ := takes
    rw [if_neg enough, if_neg fewer]
    by_cases missing : n < lambda.required + lambda.defaults
    · have some_ : 0 < lambda.defaults := by omega
      rw [if_pos missing]
      simp only [if_pos some_]
      have filled : ∀ i < lambda.required + lambda.defaults,
          fillDefaults (lambda.required + 2)
            ((slots created 0 lambda.defaults).drop (n - lambda.required)) (n - lambda.required)
            stack (2 + i) = lambda.bound created stack n i := by
        intro i inside
        unfold Lambda.bound
        rw [fillDefaults_eq, getD_drop, slots_getD]
        by_cases given : i < n
        · rw [if_neg (by omega), if_pos given]
        · have place :
              n - lambda.required + (2 + i - (lambda.required + 2 + (n - lambda.required))) =
              i - lambda.required := by omega
          rw [if_pos (by omega), if_neg given, place, if_pos (by omega), Nat.zero_add]
      cases rest : lambda.variadic with
      | false =>
          refine ⟨_, rfl, filled, ?_⟩
          intro variadic
          rw [rest] at variadic
          cases variadic
      | true =>
          rw [rest, Bool.toNat_true] at sum
          rw [if_pos rfl]
          refine ⟨_, rfl, ?_, ?_⟩
          · intro i inside
            rw [← filled i inside]
            exact if_neg (by omega)
          · intro _
            have empty : n - (lambda.required + lambda.defaults) = 0 := by omega
            have place : 2 + (lambda.required + lambda.defaults) = lambda.arguments + 1 := by omega
            rw [empty, place]
            exact if_pos rfl
    · rw [if_neg missing]
      have taken : ∀ i < lambda.required + lambda.defaults,
          stack (2 + i) = lambda.bound created stack n i := by
        intro i inside
        unfold Lambda.bound
        rw [if_pos (by omega)]
      cases rest : lambda.variadic with
      | false =>
          rw [if_neg Bool.false_ne_true]
          refine ⟨stack, rfl, taken, ?_⟩
          intro variadic
          rw [rest] at variadic
          cases variadic
      | true =>
          rw [if_pos rfl]
          refine ⟨_, rfl, ?_, ?_⟩
          · intro i inside
            rw [← taken i inside]
            exact if_neg (by omega)
          · intro _
            rw [Nat.add_comm _ 2]
            exact if_pos rfl

end Check

section Copies

variable {V : Type}

theorem write_self (stack : Nat → V) (i : Nat) (value : V) : write stack i value i = value :=
  if_pos rfl

def Copy.place : Copy → Nat
  | self => 0
  | parameter _ j => j

def Copy.source : Copy → Nat
  | self => 1
  | parameter i _ => 2 + i

theorem copy_eq (privates : Nat) (stack entries : Nat → V) (copy : Copy) :
    Frame.copy privates ⟨stack, some entries⟩ copy =
      .ok ⟨write stack (2 + privates) (stack copy.source),
        some (write entries copy.place (stack copy.source))⟩ := by
  cases copy <;> simp only [Frame.copy, Frame.put, write_self, Copy.place, Copy.source]

/-- The copies, each to another place, of slots below the one that they go through. -/
theorem copies_spec (privates : Nat) (copies : List Copy) (stack entries : Nat → V)
    (low : ∀ copy ∈ copies, copy.source < 2 + privates)
    (apart : (copies.map Copy.place).Nodup) :
    ∃ stack' entries',
      copies.foldlM (Frame.copy privates) ⟨stack, some entries⟩ = .ok ⟨stack', some entries'⟩ ∧
      (∀ i < 2 + privates, stack' i = stack i) ∧
      (∀ copy ∈ copies, entries' copy.place = stack copy.source) ∧
      ∀ j, j ∉ copies.map Copy.place → entries' j = entries j := by
  induction copies generalizing stack entries with
  | nil =>
      refine ⟨stack, entries, rfl, fun _ _ => rfl, ?_, fun _ _ => rfl⟩
      intro copy none
      cases none
  | cons copy copies induction =>
      rw [List.map_cons, List.nodup_cons] at apart
      have same :
          ∀ i < 2 + privates, write stack (2 + privates) (stack copy.source) i = stack i := by
        intro i below
        exact if_neg (by omega)
      obtain ⟨stack', entries', run, below, copied, others⟩ := induction
        (write stack (2 + privates) (stack copy.source))
        (write entries copy.place (stack copy.source))
        (fun copy later => low copy (List.mem_cons_of_mem _ later)) apart.2
      refine ⟨stack', entries', ?_, ?_, ?_, ?_⟩
      · rw [List.foldlM_cons, copy_eq]
        exact run
      · intro i short
        rw [below i short, same i short]
      · intro other member
        rcases List.mem_cons.mp member with rfl | later
        · rw [others _ apart.1]
          exact if_pos rfl
        · rw [copied other later, same _ (low other member)]
      · intro j absent
        rw [List.map_cons, List.mem_cons, not_or] at absent
        rw [others j absent.2]
        exact if_neg absent.1

end Copies

section Call

variable {V : Type} {tuple : List V → V} {null : V}

theorem mem_copies {lambda : Lambda} {copy : Copy} :
    copy ∈ lambda.copies ↔ (lambda.selfShared = true ∧ copy = .self) ∨
      ∃ i < lambda.arguments, ∃ j, lambda.shared i = some j ∧ copy = .parameter i j := by
  unfold Lambda.copies
  rw [List.mem_append, List.mem_filterMap]
  apply or_congr
  · cases lambda.selfShared <;> simp
  · simp only [List.mem_range, Option.map_eq_some_iff]
    constructor
    · rintro ⟨i, inside, j, place, rfl⟩
      exact ⟨i, inside, j, place, rfl⟩
    · rintro ⟨i, inside, j, place, rfl⟩
      exact ⟨i, inside, j, place, rfl⟩

theorem copies_nodup (lambda : Lambda) : (lambda.copies.map Copy.place).Nodup := by
  have places : ((List.range lambda.arguments).filterMap fun i =>
      (lambda.shared i).map (Copy.parameter i)).map Copy.place =
        (List.range lambda.arguments).filterMap lambda.shared := by
    rw [List.map_filterMap]
    apply List.filterMap_congr
    intro i _
    rw [Option.map_map]
    exact Option.map_id'
  unfold Lambda.copies
  rw [List.map_append, places, List.nodup_append]
  refine ⟨?_, ?_, ?_⟩
  · cases lambda.selfShared <;> simp
  · unfold List.Nodup
    rw [List.pairwise_filterMap]
    apply List.Pairwise.imp_of_mem _ List.nodup_range
    intro i k inside inside' differ j place j' place' same
    apply differ
    rw [← same] at place'
    exact lambda.apart i (List.mem_range.mp inside) k (List.mem_range.mp inside') j place place'
  · intro j first j' second same
    obtain ⟨i, inside, place⟩ := List.mem_filterMap.mp second
    have bound := (lambda.inScope i (List.mem_range.mp inside) j' place).2.1
    cases itself : lambda.selfShared with
    | false =>
        rw [itself] at first
        cases first
    | true =>
        rw [itself] at first bound
        have zero : j = 0 := List.mem_singleton.mp first
        rw [Bool.toNat_true] at bound
        omega

theorem code_instantiate (lambda : Lambda) (created : Nat → V) :
    (lambda.instantiate created).code = lambda.code := by
  unfold Lambda.instantiate
  split <;> rfl

/-- The copies are made from the stack of a call that has been taken. -/
theorem enter_spec (lambda : Lambda) (created stack : Nat → V) (n : Nat) {after : Nat → V}
    (placed : Placed lambda tuple created stack n after) :
    ∃ frame, lambda.copies.foldlM (Frame.copy lambda.code.privates)
        (enter null lambda.code after) = .ok frame ∧
      Binds lambda tuple created stack n frame := by
  obtain ⟨sum, _⟩ := counts lambda
  have within := lambda.within
  have low : ∀ copy ∈ lambda.copies, copy.source < 2 + lambda.code.privates := by
    intro copy member
    change copy.source < 2 + lambda.privates
    rcases mem_copies.mp member with ⟨_, rfl⟩ | ⟨i, inside, j, _, rfl⟩
    · simp only [Copy.source]
      omega
    · simp only [Copy.source]
      omega
  -- every parameter is in its slot, or in its place of the scope
  have held : ∃ frame, lambda.copies.foldlM (Frame.copy lambda.code.privates)
        (enter null lambda.code after) = .ok frame ∧
      ∀ i < lambda.arguments, frame.parameter lambda i = some (after (2 + i)) := by
    unfold enter
    cases scope : lambda.code.shared with
    | true =>
        rw [if_pos rfl]
        obtain ⟨stack', entries', run, below, copied, _⟩ := copies_spec lambda.code.privates
          lambda.copies after (fun _ => null) low (copies_nodup lambda)
        refine ⟨_, run, ?_⟩
        intro i inside
        unfold Frame.parameter
        cases place : lambda.shared i with
        | none => exact congrArg some (below _ (by change 2 + i < 2 + lambda.privates; omega))
        | some j =>
            exact congrArg some (copied _ (mem_copies.mpr (.inr ⟨i, inside, j, place, rfl⟩)))
    | false =>
        have private_ : ∀ i < lambda.arguments, lambda.shared i = none := by
          intro i inside
          cases place : lambda.shared i with
          | none => rfl
          | some j =>
              have shared := (lambda.inScope i inside j place).1
              exact absurd (shared.symm.trans scope) Bool.true_eq_false.mp
        have none_ : lambda.copies = [] := by
          apply List.eq_nil_iff_forall_not_mem.mpr
          intro copy member
          rcases mem_copies.mp member with ⟨itself, _⟩ | ⟨i, inside, j, place, _⟩
          · exact Bool.noConfusion ((lambda.itself itself).1.symm.trans scope)
          · rw [private_ i inside] at place
            cases place
        rw [none_]
        refine ⟨_, rfl, ?_⟩
        intro i inside
        unfold Frame.parameter
        rw [private_ i inside]
  obtain ⟨frame, run, parameters⟩ := held
  refine ⟨frame, run, ?_, ?_⟩
  · intro i inside
    rw [parameters i (by omega), placed.parameter i inside]
  · intro variadic
    rw [variadic, Bool.toNat_true] at sum
    rw [parameters _ (by omega), placed.rest variadic]

/-- A call of a lambda throws if there are too few arguments, or too many for one that is not
variadic; else each parameter has its argument, its default or the rest. -/
theorem call_binds (lambda : Lambda) (tuple : List V → V) (null : V) (created stack : Nat → V)
    (n : Nat) :
    (lambda.Refuses n → ∃ text, lambda.call tuple null (lambda.instantiate created) stack n =
      .error (.message text)) ∧
    (¬lambda.Refuses n → ∃ frame,
      lambda.call tuple null (lambda.instantiate created) stack n = .ok frame ∧
      Binds lambda tuple created stack n frame) := by
  have settles : Settles lambda tuple created stack n
      ((lambda.instantiate created).check tuple stack n) := by
    by_cases advanced : lambda.variadic = true ∨ 0 < lambda.defaults
    · exact check_advanced lambda created stack n advanced
    · simp only [not_or, Bool.not_eq_true, Nat.not_lt, Nat.le_zero] at advanced
      exact check_lambda lambda created stack n advanced.1 advanced.2
  unfold Lambda.call
  rw [code_instantiate]
  constructor
  · intro refuses
    obtain ⟨text, checked⟩ := settles.refuses refuses
    rw [checked]
    exact ⟨text, rfl⟩
  · intro takes
    obtain ⟨after, checked, placed⟩ := settles.takes takes
    rw [checked]
    exact enter_spec lambda created stack n placed

end Call

theorem lambda_of_closing {closing : Parser.Closing} (allocated : closing.Allocated)
    (named : ∀ name ∈ closing.parameters, name ∈ closing.after.names)
    (distinct : closing.parameters.Nodup) (length : closing.parameters.length = closing.arguments)
    (fewer : closing.defaults + closing.variadic.toNat ≤ closing.arguments)
    (within : closing.arguments ≤ closing.after.size)
    (scope : ∀ name, closing.after.shared name = true → closing.after.isShared = true)
    (itself : closing.after.selfShared = true →
      closing.after.isShared = true ∧ 0 < closing.after.shareds) :
    ∃ lambda : Lambda, lambda.code =
        ⟨closing.after.isShared, closing.variadic, closing.after.size, closing.after.shareds,
          closing.arguments, lambda.required⟩ ∧
      lambda.defaults = closing.defaults ∧
      ∀ (i : Nat) name, closing.parameters[i]? = some name →
        lambda.shared i =
          if closing.after.shared name then closing.after.index name else none := by
  have place : ∀ i j : Nat, (closing.parameters[i]?.bind fun name =>
      if closing.after.shared name then closing.after.index name else none) = some j →
      ∃ name, closing.parameters[i]? = some name ∧ closing.after.shared name = true ∧
        closing.after.index name = some j := by
    intro i j found
    obtain ⟨name, here, found⟩ := Option.bind_eq_some_iff.mp found
    split at found
    · rename_i shared
      exact ⟨name, here, shared, found⟩
    · cases found
  refine ⟨⟨closing.arguments, closing.defaults, closing.variadic, closing.after.isShared,
    closing.after.selfShared, closing.after.size, closing.after.shareds,
    fun i => closing.parameters[i]?.bind fun name =>
      if closing.after.shared name then closing.after.index name else none,
    fewer, within, ?_, ?_, itself⟩, ?_, rfl, ?_⟩
  · intro i _ j found
    obtain ⟨name, here, shared, index⟩ := place i j found
    have member := List.mem_of_getElem? here
    exact ⟨scope name shared, allocated.shared name (named name member) shared j index⟩
  · intro i inside k _ j found found'
    obtain ⟨name, here, shared, index⟩ := place i j found
    obtain ⟨name', here', shared', index'⟩ := place k j found'
    have same := allocated.injective name (named name (List.mem_of_getElem? here)) name'
      (named name' (List.mem_of_getElem? here')) (shared.trans shared'.symm)
      (index.trans index'.symm)
    rw [← same] at here'
    exact (List.getElem?_inj (by omega) distinct).mp (here.trans here'.symm)
  · rw [← (counts _).2]
    rfl
  · intro i name here
    simp only [here, Option.bind_some]

end Xemmai.Parameters
