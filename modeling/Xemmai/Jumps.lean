import Xemmai.Invariant

/-!
# Jump targets

Whether a jump may stand where it stands, and whether `f_flow` and `f_emit` find the
target of each, depends on what is passed down the tree. One traversal is made with
each of the ways to pass it.
-/

namespace Xemmai

set_option autoImplicit false

/-- How what is known of the jumps is passed down a tree, and what a `break`, a
`continue` and a `return` need of it. -/
structure Passing (κ : Type) where
  inLoop : κ → κ
  inLambda : κ → κ
  inTry : κ → κ
  inFinally : κ → κ
  breaks : κ → Bool
  continues : κ → Bool
  returns : κ → Bool

section

variable {κ : Type} (passing : Passing κ)

mutual

def Tree.finds (known : κ) : Tree → Bool
  | .literal _ => true
  | .self _ => true
  | .preserve => true
  | .symbolGet _ _ _ => true
  | .scopePut _ _ value => value.finds known
  | .operate _ operands => Tree.finds.all known operands
  | .if_ condition true_ false_ =>
    Tree.finds.option known condition && true_.finds known && false_.finds known
  | .while_ condition body =>
    Tree.finds.option known condition && body.finds (passing.inLoop known)
  | .for_ initialization condition next body =>
    Tree.finds.option known initialization && Tree.finds.option known condition &&
      Tree.finds.option known next && body.finds (passing.inLoop known)
  | .break_ expression => passing.breaks known && expression.finds known
  | .continue_ => passing.continues known
  | .return_ expression => passing.returns known && expression.finds known
  | .try_ body catches finally_ =>
    body.finds (passing.inTry known) && Tree.finds.clauses (passing.inTry known) catches &&
      Tree.finds.option (passing.inFinally known) finally_
  | .lambda _ _ _ defaults body =>
    Tree.finds.all known defaults && body.finds (passing.inLambda known)

def Tree.finds.all (known : κ) : List Tree → Bool
  | [] => true
  | node :: nodes => node.finds known && Tree.finds.all known nodes

def Tree.finds.option (known : κ) : Option Tree → Bool
  | none => true
  | some node => node.finds known

def Tree.finds.clauses (known : κ) : List (Tree × String × Tree) → Bool
  | [] => true
  | (expression, _, body) :: clauses =>
    expression.finds known && body.finds known && Tree.finds.clauses known clauses

end

end

namespace Tree

section

variable {κ : Type} {passing : Passing κ} {known : κ}

theorem finds_all {nodes : List Tree} :
    finds.all passing known nodes = true ↔ ∀ node ∈ nodes, node.finds passing known = true := by
  induction nodes with
  | nil => simp [finds.all]
  | cons node nodes ih => simp [finds.all, ih]

theorem finds_option {node : Option Tree} :
    finds.option passing known node = true ↔ ∀ n ∈ node, n.finds passing known = true := by
  cases node <;> simp [finds.option]

theorem finds_clauses {clauses : List (Tree × String × Tree)} :
    finds.clauses passing known clauses = true ↔ ∀ clause ∈ clauses,
      clause.1.finds passing known = true ∧ clause.2.2.finds passing known = true := by
  induction clauses with
  | nil => simp [finds.clauses]
  | cons clause clauses ih => simp [finds.clauses, ih]

end

end Tree

/-- What is known for two purposes is enough for a third. -/
structure Passing.Join {κ μ ν : Type} (first : Passing κ) (second : Passing μ)
    (third : Passing ν) (related : κ → μ → ν → Prop) : Prop where
  inLoop : ∀ {a b c}, related a b c →
    related (first.inLoop a) (second.inLoop b) (third.inLoop c)
  inLambda : ∀ {a b c}, related a b c →
    related (first.inLambda a) (second.inLambda b) (third.inLambda c)
  inTry : ∀ {a b c}, related a b c →
    related (first.inTry a) (second.inTry b) (third.inTry c)
  inFinally : ∀ {a b c}, related a b c →
    related (first.inFinally a) (second.inFinally b) (third.inFinally c)
  breaks : ∀ {a b c}, related a b c →
    first.breaks a = true → second.breaks b = true → third.breaks c = true
  continues : ∀ {a b c}, related a b c →
    first.continues a = true → second.continues b = true → third.continues c = true
  returns : ∀ {a b c}, related a b c →
    first.returns a = true → second.returns b = true → third.returns c = true

section

variable {κ μ ν : Type} {first : Passing κ} {second : Passing μ} {third : Passing ν}
  {related : κ → μ → ν → Prop}

mutual

theorem Tree.finds_join (join : first.Join second third related) {a : κ} {b : μ} {c : ν}
    (known : related a b c) : ∀ tree : Tree, tree.finds first a = true →
      tree.finds second b = true → tree.finds third c = true
  | .literal _, _, _ => rfl
  | .self _, _, _ => rfl
  | .preserve, _, _ => rfl
  | .symbolGet _ _ _, _, _ => rfl
  | .scopePut _ _ value, one, two => Tree.finds_join join known value one two
  | .operate _ operands, one, two => Tree.all_join join known operands one two
  | .if_ condition true_ false_, one, two => by
    simp only [finds, Bool.and_eq_true] at one two ⊢
    exact ⟨⟨Tree.option_join join known condition one.1.1 two.1.1,
      Tree.finds_join join known true_ one.1.2 two.1.2⟩,
      Tree.finds_join join known false_ one.2 two.2⟩
  | .while_ condition body, one, two => by
    simp only [finds, Bool.and_eq_true] at one two ⊢
    exact ⟨Tree.option_join join known condition one.1 two.1,
      Tree.finds_join join (join.inLoop known) body one.2 two.2⟩
  | .for_ initialization condition next body, one, two => by
    simp only [finds, Bool.and_eq_true] at one two ⊢
    exact ⟨⟨⟨Tree.option_join join known initialization one.1.1.1 two.1.1.1,
      Tree.option_join join known condition one.1.1.2 two.1.1.2⟩,
      Tree.option_join join known next one.1.2 two.1.2⟩,
      Tree.finds_join join (join.inLoop known) body one.2 two.2⟩
  | .break_ expression, one, two => by
    simp only [finds, Bool.and_eq_true] at one two ⊢
    exact ⟨join.breaks known one.1 two.1, Tree.finds_join join known expression one.2 two.2⟩
  | .continue_, one, two => join.continues known one two
  | .return_ expression, one, two => by
    simp only [finds, Bool.and_eq_true] at one two ⊢
    exact ⟨join.returns known one.1 two.1, Tree.finds_join join known expression one.2 two.2⟩
  | .try_ body catches finally_, one, two => by
    simp only [finds, Bool.and_eq_true] at one two ⊢
    exact ⟨⟨Tree.finds_join join (join.inTry known) body one.1.1 two.1.1,
      Tree.clauses_join join (join.inTry known) catches one.1.2 two.1.2⟩,
      Tree.option_join join (join.inFinally known) finally_ one.2 two.2⟩
  | .lambda _ _ _ defaults body, one, two => by
    simp only [finds, Bool.and_eq_true] at one two ⊢
    exact ⟨Tree.all_join join known defaults one.1 two.1,
      Tree.finds_join join (join.inLambda known) body one.2 two.2⟩

theorem Tree.all_join (join : first.Join second third related) {a : κ} {b : μ} {c : ν}
    (known : related a b c) : ∀ nodes : List Tree, finds.all first a nodes = true →
      finds.all second b nodes = true → finds.all third c nodes = true
  | [], _, _ => rfl
  | node :: nodes, one, two => by
    simp only [finds.all, Bool.and_eq_true] at one two ⊢
    exact ⟨Tree.finds_join join known node one.1 two.1,
      Tree.all_join join known nodes one.2 two.2⟩

theorem Tree.option_join (join : first.Join second third related) {a : κ} {b : μ} {c : ν}
    (known : related a b c) : ∀ node : Option Tree, finds.option first a node = true →
      finds.option second b node = true → finds.option third c node = true
  | none, _, _ => rfl
  | some node, one, two => Tree.finds_join join known node one two

theorem Tree.clauses_join (join : first.Join second third related) {a : κ} {b : μ} {c : ν}
    (known : related a b c) : ∀ clauses : List (Tree × String × Tree),
      finds.clauses first a clauses = true → finds.clauses second b clauses = true →
      finds.clauses third c clauses = true
  | [], _, _ => rfl
  | (expression, _, body) :: clauses, one, two => by
    simp only [finds.clauses, Bool.and_eq_true] at one two ⊢
    exact ⟨⟨Tree.finds_join join known expression one.1.1 two.1.1,
      Tree.finds_join join known body one.1.2 two.1.2⟩,
      Tree.clauses_join join known clauses one.2 two.2⟩

end

end

namespace Jumps

/-- Whether there is a loop of the same lambda, and whether there is a lambda, that a
`finally` does not stand between. -/
def legal : Passing (Bool × Bool) where
  inLoop known := (true, known.2)
  inLambda _ := (false, true)
  inTry known := known
  inFinally _ := (false, false)
  breaks known := known.1
  continues known := known.1
  returns known := known.2

/-- `v_can_jump` and `v_can_return` of the parser. -/
def accepted : Passing (Bool × Bool) where
  inLoop known := (true, known.2)
  inLambda known := (known.1, true)
  inTry known := known
  inFinally _ := (false, false)
  breaks known := known.1
  continues known := known.1
  returns known := known.2

/-- The loops around that no `finally` stands between: none, some of the same lambda,
or only those of the lambdas around it. -/
inductive Loops
  | none
  | own
  | foreign
  deriving DecidableEq, Repr

/-- No `break` and no `continue` has only loops around that the lambda it is in stands
in. -/
def contained : Passing Loops where
  inLoop _ := .own
  inLambda
    | .none => .none
    | _ => .foreign
  inTry known := known
  inFinally _ := .none
  breaks known := decide (known ≠ .foreign)
  continues known := decide (known ≠ .foreign)
  returns _ := true

/-- `t_flow::t_targets` and `t_emit::t_targets`: the code objects, by their depth,
that the targets belong to, and the one that is being emitted. -/
structure Targets where
  code : Nat
  break_ : Option Nat
  continue_ : Option Nat
  return_ : Option Nat
  deriving DecidableEq, Repr

def Targets.has (targets : Targets) (target : Option Nat) : Bool :=
  decide (target = some targets.code)

/-- `f_flow`; within a `try` every jump leads to `v_junction_finally`. -/
def flow : Passing Targets where
  inLoop targets :=
    { targets with break_ := some targets.code, continue_ := some targets.code }
  inLambda targets :=
    { code := targets.code + 1, break_ := none, continue_ := none,
      return_ := some (targets.code + 1) }
  inTry targets :=
    { code := targets.code, break_ := some targets.code, continue_ := some targets.code,
      return_ := some targets.code }
  inFinally targets :=
    { code := targets.code, break_ := none, continue_ := none, return_ := none }
  breaks targets := targets.has targets.break_
  continues targets := targets.has targets.continue_
  returns targets := targets.has targets.return_

/-- `f_emit`; within a `try` there are labels for the jumps that there are targets
for. -/
def emit : Passing Targets where
  inLoop targets :=
    { targets with break_ := some targets.code, continue_ := some targets.code }
  inLambda targets :=
    { code := targets.code + 1, break_ := none, continue_ := none,
      return_ := some (targets.code + 1) }
  inTry targets :=
    { code := targets.code
      break_ := targets.break_.map fun _ => targets.code
      continue_ := targets.continue_.map fun _ => targets.code
      return_ := targets.return_.map fun _ => targets.code }
  inFinally targets :=
    { code := targets.code, break_ := none, continue_ := none, return_ := none }
  breaks targets := targets.has targets.break_
  continues targets := targets.has targets.continue_
  returns targets := targets.has targets.return_

/-- The targets with which the flow of a module is analysed, which may return. -/
def flowed : Targets where
  code := 0
  break_ := none
  continue_ := none
  return_ := some 0

def emitted : Targets where
  code := 0
  break_ := none
  continue_ := none
  return_ := none

/-- What is to be said of the jumps of a module: each is where it may be, and the
analysis of the flow and the emission find targets for them. -/
structure Targeted (tree : Tree) : Prop where
  legal : tree.finds legal (false, false) = true
  flow : tree.finds flow flowed = true
  emit : tree.finds emit emitted = true

/-- The targets are of the code object where a jump may be. -/
def Covers (known also : Bool × Bool) (targets : Targets) : Prop :=
  known = also ∧
    (known.1 = true → targets.break_ = some targets.code ∧
      targets.continue_ = some targets.code) ∧
    (known.2 = true → targets.return_ = some targets.code)

theorem legal_flow : legal.Join legal flow Covers where
  inLoop := by
    rintro a _ targets ⟨rfl, _, returns⟩
    exact ⟨rfl, fun _ => ⟨rfl, rfl⟩, returns⟩
  inLambda := by
    rintro a _ targets ⟨rfl, _, _⟩
    exact ⟨rfl, nofun, fun _ => rfl⟩
  inTry := by
    rintro a _ targets ⟨rfl, _, _⟩
    exact ⟨rfl, fun _ => ⟨rfl, rfl⟩, fun _ => rfl⟩
  inFinally := by
    rintro a _ targets ⟨rfl, _, _⟩
    exact ⟨rfl, nofun, nofun⟩
  breaks := by
    rintro a _ targets ⟨rfl, jumps, _⟩ may _
    exact decide_eq_true (jumps may).1
  continues := by
    rintro a _ targets ⟨rfl, jumps, _⟩ may _
    exact decide_eq_true (jumps may).2
  returns := by
    rintro a _ targets ⟨rfl, _, returns⟩ may _
    exact decide_eq_true (returns may)

theorem legal_emit : legal.Join legal emit Covers where
  inLoop := by
    rintro a _ targets ⟨rfl, _, returns⟩
    exact ⟨rfl, fun _ => ⟨rfl, rfl⟩, returns⟩
  inLambda := by
    rintro a _ targets ⟨rfl, _, _⟩
    exact ⟨rfl, nofun, fun _ => rfl⟩
  inTry := by
    rintro a _ targets ⟨rfl, jumps, returns⟩
    refine ⟨rfl, fun may => ?_, fun may => ?_⟩
    · simp [emit, (jumps may).1, (jumps may).2]
    · simp [emit, returns may]
  inFinally := by
    rintro a _ targets ⟨rfl, _, _⟩
    exact ⟨rfl, nofun, nofun⟩
  breaks := by
    rintro a _ targets ⟨rfl, jumps, _⟩ may _
    exact decide_eq_true (jumps may).1
  continues := by
    rintro a _ targets ⟨rfl, jumps, _⟩ may _
    exact decide_eq_true (jumps may).2
  returns := by
    rintro a _ targets ⟨rfl, _, returns⟩ may _
    exact decide_eq_true (returns may)

theorem targeted_of_legal {tree : Tree} (found : tree.finds legal (false, false) = true) :
    Targeted tree where
  legal := found
  flow := Tree.finds_join legal_flow ⟨rfl, by simp, by simp⟩ tree found found
  emit := Tree.finds_join legal_emit ⟨rfl, by simp, by simp⟩ tree found found

theorem legal_contained : legal.Join legal contained
    fun known also loops => known = also ∧ (known.1 = true → loops = .own) where
  inLoop := by
    rintro a _ loops ⟨rfl, _⟩
    exact ⟨rfl, fun _ => rfl⟩
  inLambda := by
    rintro a _ loops ⟨rfl, _⟩
    exact ⟨rfl, nofun⟩
  inTry := fun known => known
  inFinally := by
    rintro a _ loops ⟨rfl, _⟩
    exact ⟨rfl, nofun⟩
  breaks := by
    rintro a _ loops ⟨rfl, own⟩ may _
    simp [contained, own may]
  continues := by
    rintro a _ loops ⟨rfl, own⟩ may _
    simp [contained, own may]
  returns := fun _ _ _ => rfl

/-- The parser accepts a jump where there is a loop around, be it of another lambda. -/
theorem accepted_contained : accepted.Join contained legal fun known loops may =>
    known.2 = may.2 ∧ (known.1 = true → loops ≠ .none) ∧ (loops = .own → may.1 = true) where
  inLoop := by
    rintro a loops may ⟨same, _, _⟩
    exact ⟨same, fun _ => by simp [contained], fun _ => rfl⟩
  inLambda := by
    rintro a loops may ⟨_, some_, _⟩
    refine ⟨rfl, fun jump => ?_, fun own => ?_⟩
    · have some_ := some_ jump
      cases loops with
      | none => exact absurd rfl some_
      | own => simp [contained]
      | foreign => simp [contained]
    · cases loops <;> simp [contained] at own
  inTry := fun known => known
  inFinally := by
    rintro a loops may _
    exact ⟨rfl, nofun, fun own => by simp [contained] at own⟩
  breaks := by
    rintro a loops may ⟨_, some_, own⟩ jump near
    have some_ := some_ jump
    cases loops with
    | none => exact absurd rfl some_
    | own => exact own rfl
    | foreign => simp [contained] at near
  continues := by
    rintro a loops may ⟨_, some_, own⟩ jump near
    have some_ := some_ jump
    cases loops with
    | none => exact absurd rfl some_
    | own => exact own rfl
    | foreign => simp [contained] at near
  returns := by
    rintro a loops may ⟨same, _⟩ jump _
    have jump : a.2 = true := jump
    exact same.symm.trans jump

theorem legal_iff {tree : Tree} (found : tree.finds accepted (false, false) = true) :
    tree.finds legal (false, false) = true ↔ tree.finds contained .none = true := by
  constructor
  · intro may
    exact Tree.finds_join legal_contained ⟨rfl, by simp⟩ tree may may
  · intro near
    exact Tree.finds_join accepted_contained ⟨rfl, by simp, by simp⟩ tree found near

/-- The flags of the parser while it builds what they accept. -/
def flags : Parser.Invariant where
  Context := Bool × Bool
  fails _ := True
  holds known state := state.canJump = known.1 ∧ state.canReturn = known.2
  tree known tree := tree.finds accepted known = true
  inLambda known _ := (known.1, true)
  inLoop known := (true, known.2)
  inFinally _ := (false, false)
  marked known _ := known
  thrown _ := trivial
  lexical := trivial
  exhausted := trivial
  lexemes _ _ holds := holds
  touches _ _ _ holds := holds
  literal _ _ := rfl
  self _ _ := rfl
  preserve _ := rfl
  symbolGet _ _ _ _ := rfl
  scopePut _ _ value := value
  operate _ operands := Tree.finds_all.mpr operands
  if_ condition true_ false_ := by
    simp only [Tree.finds, Bool.and_eq_true]
    exact ⟨⟨Tree.finds_option.mpr condition, true_⟩, false_⟩
  break_ holds may expression := by
    simp only [Tree.finds, Bool.and_eq_true]
    exact ⟨holds.1.symm.trans may, expression⟩
  continue_ holds may := holds.1.symm.trans may
  return_ holds may expression := by
    simp only [Tree.finds, Bool.and_eq_true]
    exact ⟨holds.2.symm.trans may, expression⟩
  enterLoop holds := ⟨rfl, holds.2⟩
  leaveLoop holds _ := holds
  mark holds := holds
  varies holds marked := by
    rw [Parser.vary_eq]
    split
    · trivial
    · split
      · trivial
      · exact marked
  while_ _ condition body := by
    simp only [Tree.finds, Bool.and_eq_true]
    exact ⟨Tree.finds_option.mpr condition, body⟩
  for_ _ initialization condition next body := by
    simp only [Tree.finds, Bool.and_eq_true]
    exact ⟨⟨⟨Tree.finds_option.mpr initialization, Tree.finds_option.mpr condition⟩,
      Tree.finds_option.mpr next⟩, body⟩
  enterFinally _ := ⟨rfl, rfl⟩
  leaveFinally holds _ := holds
  try_ body catches finally_ := by
    simp only [Tree.finds, Bool.and_eq_true]
    exact ⟨⟨body, Tree.finds_clauses.mpr catches⟩, Tree.finds_option.mpr finally_⟩
  enterLambda _ holds := ⟨holds.1, rfl⟩
  leaveLambda _ _ _ holds _ _ := by
    rw [Parser.leave_eq]
    split
    · trivial
    · split
      · trivial
      · exact holds
  lambda _ _ _ defaults body := by
    simp only [Tree.finds, Bool.and_eq_true]
    exact ⟨Tree.finds_all.mpr defaults, body⟩

theorem program_accepted {fuel : Nat} {first : Lexeme} {rest : List Lexeme} {tree : Tree}
    {scope : Parser.Scope} {state : Parser.State}
    (parsed : Parser.program fuel (Parser.start first rest) = .ok ((tree, scope), state)) :
    tree.finds accepted (false, false) = true := by
  have kept := flags.kept_module (false, false) fuel (Parser.start first rest) ⟨rfl, rfl⟩
  have ended : Yields (fun _ => True) (fun result _ =>
      result.1.finds accepted (false, false) = true)
      (Parser.program fuel (Parser.start first rest)) := by
    refine kept.bind ?_
    rintro nodes after ⟨holds, built⟩
    refine Yields.bind (?_ : Yields _ (fun _ _ => True) _) fun scope final _ =>
      Tree.finds_all.mpr built
    rw [Parser.leave_eq]
    split
    · trivial
    · split <;> trivial
  exact ended.of_ok parsed

/-- The jumps of a module that the parser accepts have their targets if and only if no
`break` and no `continue` stands in a lambda outside its loops, where there is a loop
around the lambda. -/
theorem targeted_iff {fuel : Nat} {first : Lexeme} {rest : List Lexeme} {tree : Tree}
    {scope : Parser.Scope} {state : Parser.State}
    (parsed : Parser.program fuel (Parser.start first rest) = .ok ((tree, scope), state)) :
    Targeted tree ↔ tree.finds contained .none = true := by
  rw [← legal_iff (program_accepted parsed)]
  exact ⟨fun targeted => targeted.legal, targeted_of_legal⟩

/-- `while true; break` -/
theorem break_targeted : ∃ tree scope state,
    Parser.program 4 (Parser.start ⟨.while_, false, 0⟩
      (Parser.line [.true_, .semicolon, .break_])) = .ok ((tree, scope), state) ∧
    (Targeted tree ↔ tree.finds contained .none = true) := by
  obtain ⟨tree, scope, state, parsed, _⟩ := Parser.of_passes
    (show Parser.passes (fun _ _ => true) (Parser.program 4 (Parser.start ⟨.while_, false, 0⟩
      (Parser.line [.true_, .semicolon, .break_]))) = true by decide +kernel)
  exact ⟨tree, scope, state, parsed, targeted_iff parsed⟩

/-- `while true; @ break`: the flag of the loop is left as it is in the lambda, in
which there is no target for the `break`. -/
theorem break_in_lambda : ∃ tree scope state,
    Parser.program 4 (Parser.start ⟨.while_, false, 0⟩
      (Parser.line [.true_, .semicolon, .atmark, .break_])) = .ok ((tree, scope), state) ∧
    tree.finds legal (false, false) = false ∧ tree.finds flow flowed = false ∧
    tree.finds emit emitted = false ∧ ¬ Targeted tree := by
  obtain ⟨tree, scope, state, parsed, passed⟩ := Parser.of_passes
    (show Parser.passes (fun tree _ => !tree.finds legal (false, false) &&
        !tree.finds flow flowed && !tree.finds emit emitted)
      (Parser.program 4 (Parser.start ⟨.while_, false, 0⟩
        (Parser.line [.true_, .semicolon, .atmark, .break_]))) = true by decide +kernel)
  simp only [Bool.and_eq_true, Bool.not_eq_true'] at passed
  refine ⟨tree, scope, state, parsed, passed.1.1, passed.1.2, passed.2, fun targeted => ?_⟩
  exact absurd targeted.legal (by simp [passed.1.1])

end Jumps

end Xemmai
