import Xemmai.Precedence

/-!
# The documented terms

What the documentation derives the parser reads, with two differences in the tree:
identity and equality associate together, and a sign before a number is taken into
the literal. Colons that lead out of the module are refused.
-/

namespace Xemmai.Parser

set_option autoImplicit false

open Xemmai.Tree Filter

def merged (n : Nat) : Nat :=
  if n = 5 then 6 else n

theorem merged_of_ne {n : Nat} (apart : n ≠ 5) : merged n = n :=
  if_neg apart

theorem levelOf_merged (token : Token) :
    Grammar.implemented.levelOf token = merged (Grammar.confined.levelOf token) := by
  cases token <;> rfl

theorem following_append (first behind : List Token) (next : Option Token) :
    following (first ++ behind) next = following first (following behind next) := by
  cases first <;> rfl

section

variable {place : Place} {indent : Nat} {last : Lexeme}
variable {next : Option Token} {tokens : List Token}

/-- What the parser reads of a phrase, whatever has been built before it. -/
def Converts (place : Place) (indent : Nat) (last : Lexeme) (phrase : Phrase)
    (next : Option Token) (tokens : List Token) : Prop :=
  let derives (phrase : Phrase) (tokens : List Token) : Prop :=
    Derives .implemented (others place indent last) place.depth phrase next tokens
  match phrase with
  | .expression _ => ∃ tree, derives (.expression tree) tokens
  | .conditional _ => ∃ tree, derives (.conditional tree) tokens
  | .level n _ => ∃ tree, derives (.level (merged n) tree) tokens
  | .chain n _ _ => ∀ left, ∃ tree, derives (.chain (merged n) left tree) tokens
  | .unary _ =>
    (∃ tree, derives (.unary tree) tokens) ∧
    ∀ token instruction number value, unaryOf token = some instruction →
      tokens.head? = some number → signed instruction number = some value →
      ∃ tree, derives (.unary tree) (token :: tokens)
  | .primary _ => ∃ tree, derives (.primary tree) tokens
  | .steps _ _ => ∀ target, ∃ tree, derives (.steps target tree) tokens
  | .step _ _ => ∀ target, ∃ tree, derives (.step target tree) tokens
  | .call right _ _ => ∃ nodes expands, derives (.call right nodes expands) tokens
  | .arguments _ _ => ∀ before, ∃ after, derives (.arguments before after) tokens
  | .group _ _ => ∀ before, ∃ after, derives (.group before after) tokens
  | .pairs _ _ => ∀ before, ∃ after, derives (.pairs before after) tokens

theorem Derives.five {names : Others} {depth : Nat} {tree : Tree}
    (derives : Derives .implemented names depth (.level 6 tree) next tokens) :
    Derives .implemented names depth (.level 5 tree) next tokens := by
  have whole := Derives.level (n := 5) (by omega) derives Derives.chainEnd
  rwa [List.append_nil] at whole

theorem Derives.operandOf {names : Others} {depth n : Nat} {tree : Tree} (apart : n ≠ 5)
    (derives : Derives .implemented names depth (.level (merged (n + 1)) tree) next tokens) :
    Derives .implemented names depth (.level (merged n + 1) tree) next tokens := by
  rw [merged_of_ne apart]
  by_cases four : n = 4
  · subst four
    exact derives.five
  · rwa [merged_of_ne (by omega)] at derives

/-- A chain goes on from whatever has been built, and another one behind it. -/
theorem Derives.continues {grammar : Grammar} {names : Others} {depth n : Nat}
    {start middle : Tree} {behind : List Token}
    (derives : Derives grammar names depth (.chain n start middle) (following behind next) tokens)
    (continues : ∀ left, ∃ tree, Derives grammar names depth (.chain n left tree) next behind)
    (left : Tree) :
    ∃ tree, Derives grammar names depth (.chain n left tree) next (tokens ++ behind) := by
  generalize is : Phrase.chain n start middle = phrase at derives
  generalize before : following behind next = token at derives
  induction derives generalizing start left with
  | chainEnd =>
    cases is
    exact continues left
  | @chain _ _ right _ _ token operand others build operator on right_ _ _ going =>
    cases is
    subst before
    obtain ⟨tree, going⟩ := going (build left right) rfl rfl
    rw [← following_append] at right_
    refine ⟨tree, ?_⟩
    have whole := Derives.chain operator on right_ going
    rwa [← List.append_assoc] at whole
  | _ => cases is

theorem signed_number {number : Token} {instruction : Unary} {value : Tree.Literal}
    (is : signed instruction number = some value) :
    (∃ value, number = .integer value) ∨ ∃ value, number = .float value := by
  cases number with
  | integer value => exact Or.inl ⟨value, rfl⟩
  | float value => exact Or.inr ⟨value, rfl⟩
  | _ => cases instruction <;> cases is

theorem head_colons {outer : Nat} {token number : Token} {behind others : List Token}
    (whole : number :: behind = colons outer ++ token :: others) :
    number = token ∨ number = .colon outer := by
  unfold colons at whole
  split at whole
  · exact Or.inl (List.cons.inj whole).1
  · exact Or.inr (List.cons.inj whole).1

theorem primary_number {grammar : Grammar} {depth : Nat} {tree : Tree} {number : Token}
    {instruction : Unary} {value : Tree.Literal} {behind : List Token}
    (derives : Derives grammar (others place indent last) depth (.primary tree) next
      (number :: behind))
    (is : signed instruction number = some value) : behind = [] := by
  have kinds := signed_number is
  generalize whole : number :: behind = tokens at derives
  generalize kind : Phrase.primary tree = phrase at derives
  cases derives with
  | literal => exact (List.cons.inj whole).2
  | symbol =>
    rcases kinds with ⟨_, rfl⟩ | ⟨_, rfl⟩ <;> rcases head_colons whole with same | same <;>
      cases same
  | self =>
    rcases kinds with ⟨_, rfl⟩ | ⟨_, rfl⟩ <;> rcases head_colons whole with same | same <;>
      cases same
  | selfKey =>
    rcases kinds with ⟨_, rfl⟩ | ⟨_, rfl⟩ <;> rcases head_colons whole with same | same <;>
      cases same
  | otherPrimary other =>
    obtain ⟨token, head, kind⟩ := other.1
    subst whole
    obtain rfl := Option.some.inj head
    rcases kinds with ⟨_, rfl⟩ | ⟨_, rfl⟩ <;> simp at kind
  | _ => first | (cases kind; done) | (rcases kinds with ⟨_, rfl⟩ | ⟨_, rfl⟩ <;> cases whole)

theorem Derives.converts {phrase : Phrase}
    (derives : Derives .confined (others place indent last) place.depth phrase next tokens) :
    Converts place indent last phrase next tokens := by
  induction derives with
  | term _ tree =>
    obtain ⟨tree, derives⟩ := tree
    exact ⟨tree, .term derives⟩
  | @other tree _ _ other => exact ⟨tree, .other other⟩
  | orElse _ tree =>
    obtain ⟨tree, derives⟩ := tree
    exact ⟨tree, .orElse derives⟩
  | conditional _ _ _ condition truly falsely =>
    obtain ⟨_, condition⟩ := condition
    obtain ⟨_, truly⟩ := truly
    obtain ⟨_, falsely⟩ := falsely
    exact ⟨_, .conditional condition truly falsely⟩
  | @level n _ _ _ first behind low _ _ first_ chain =>
    obtain ⟨left, first_⟩ := first_
    by_cases five : n = 5
    · subst five
      -- the operators of both levels make one chain
      cases first_ with
      | level _ operand inner =>
        obtain ⟨tree, whole⟩ := inner.continues chain _
        rw [← following_append] at operand
        refine ⟨tree, ?_⟩
        have merged := Derives.level (by decide) operand whole
        rwa [← List.append_assoc] at merged
    · obtain ⟨tree, chain⟩ := chain left
      exact ⟨tree, .level (by rw [merged_of_ne five]; exact low) (first_.operandOf five) chain⟩
  | chainEnd => exact fun left => ⟨left, .chainEnd⟩
  | @chain n _ _ _ _ token operand behind build operator on _ _ right chain =>
    intro left
    obtain ⟨right, right_⟩ := right
    have on_ : Grammar.implemented.levelOf token = merged n := by
      rw [levelOf_merged, on]
    by_cases five : n = 5
    · subst five
      cases right_ with
      | @level _ inner _ _ _ _ _ operand inners =>
        obtain ⟨tree, whole⟩ := inners.continues chain (build left inner)
        rw [← following_append] at operand
        refine ⟨tree, ?_⟩
        have merged := Derives.chain operator on_ operand whole
        rwa [← List.append_assoc] at merged
    · obtain ⟨tree, chain⟩ := chain (build left right)
      exact ⟨tree, .chain operator on_ (right_.operandOf five) chain⟩
  | operand _ unary =>
    obtain ⟨⟨tree, unary⟩, _⟩ := unary
    exact ⟨tree, .operand unary⟩
  | @sign token instruction _ _ tokens operator _ _ unary =>
    obtain ⟨⟨tree, unary⟩, numbers⟩ := unary
    constructor
    · by_cases joined : ∃ number ∈ tokens.head?, ∃ value, signed instruction number = some value
      · obtain ⟨number, head, value, is⟩ := joined
        exact numbers token instruction number value operator head is
      · refine ⟨_, .sign operator (fun _ number head => ?_) unary⟩
        cases is : signed instruction number with
        | none => rfl
        | some value => exact absurd ⟨number, head, value, is⟩ joined
    · intro other instruction_ number value _ head is
      obtain rfl := Option.some.inj head
      rcases signed_number is with ⟨_, rfl⟩ | ⟨_, rfl⟩ <;> cases operator
  | number signs => cases signs
  | @chained target tree next first behind primary _ converted steps =>
    obtain ⟨middle, converted⟩ := converted
    constructor
    · obtain ⟨tree, steps⟩ := steps middle
      exact ⟨tree, .chained converted steps⟩
    · intro token instruction number value operator head is
      obtain ⟨tree, steps⟩ := steps (.literal value)
      obtain ⟨head_, others, rfl, _⟩ := primary.heads
      obtain rfl := Option.some.inj head
      obtain rfl := primary_number primary is
      exact ⟨tree, .number rfl operator is steps⟩
  | literal is => exact ⟨_, .literal is⟩
  | quoted => exact ⟨_, .quoted⟩
  | symbol within => exact ⟨_, .symbol fun _ => within rfl⟩
  | self within => exact ⟨_, .self fun _ => within rfl⟩
  | selfKey within => exact ⟨_, .selfKey fun _ => within rfl⟩
  | tuple _ call =>
    obtain ⟨_, _, call⟩ := call
    exact ⟨_, .tuple call⟩
  | list _ call =>
    obtain ⟨_, _, call⟩ := call
    exact ⟨_, .list call⟩
  | empty closes atEnd => exact ⟨_, .empty closes atEnd⟩
  | parenthesized closes _ group =>
    obtain ⟨_, group⟩ := group []
    exact ⟨_, .parenthesized closes group⟩
  | emptyMap closes atEnd => exact ⟨_, .emptyMap closes atEnd⟩
  | map closes _ pairs =>
    obtain ⟨_, pairs⟩ := pairs []
    exact ⟨_, .map closes pairs⟩
  | otherPrimary other => exact ⟨_, .otherPrimary other⟩
  | stepsEnd => exact fun target => ⟨target, .stepsEnd⟩
  | steps _ _ step steps =>
    intro target
    obtain ⟨middle, step⟩ := step target
    obtain ⟨tree, steps⟩ := steps middle
    exact ⟨tree, .steps step steps⟩
  | called _ call =>
    obtain ⟨_, _, call⟩ := call
    exact fun target => ⟨_, .called call⟩
  | subscription closes _ index =>
    obtain ⟨_, index⟩ := index
    exact fun target => ⟨_, .subscription closes index⟩
  | getter => exact fun target => ⟨_, .getter⟩
  | getterIndirect closes _ key =>
    obtain ⟨_, key⟩ := key
    exact fun target => ⟨_, .getterIndirect closes key⟩
  | class_ => exact fun target => ⟨_, .class_⟩
  | super => exact fun target => ⟨_, .super⟩
  | tester => exact fun target => ⟨_, .tester⟩
  | testerIndirect closes _ key =>
    obtain ⟨_, key⟩ := key
    exact fun target => ⟨_, .testerIndirect closes key⟩
  | noArguments closes atEnd => exact ⟨_, _, .noArguments closes atEnd⟩
  | call closes _ arguments =>
    obtain ⟨after, arguments⟩ := arguments ([], [])
    exact ⟨after.1, after.2, .call closes arguments⟩
  | @lastArgument expanded _ _ _ _ _ node =>
    obtain ⟨_, node⟩ := node
    exact fun before => ⟨_, .lastArgument node⟩
  | @argument expanded _ _ _ _ _ _ _ _ node arguments =>
    obtain ⟨node, derives⟩ := node
    intro before
    obtain ⟨after, arguments⟩ := arguments (argued expanded before node)
    exact ⟨after, .argument derives arguments⟩
  | lastOfGroup _ node =>
    obtain ⟨_, node⟩ := node
    exact fun before => ⟨_, .lastOfGroup node⟩
  | group _ _ node group =>
    obtain ⟨_, derives⟩ := node
    intro before
    obtain ⟨after, group⟩ := group _
    exact ⟨after, .group derives group⟩
  | lastPair _ _ key value =>
    obtain ⟨_, key⟩ := key
    obtain ⟨_, value⟩ := value
    exact fun before => ⟨_, .lastPair key value⟩
  | pair _ _ _ key value pairs =>
    obtain ⟨_, key⟩ := key
    obtain ⟨_, value⟩ := value
    intro before
    obtain ⟨after, pairs⟩ := pairs _
    exact ⟨after, .pair key value pairs⟩

end

/-- The parser builds the tree from the tokens, wherever the place is. -/
def Builds (place : Place) (indent : Nat) (last : Lexeme) (next : Option Token)
    (tokens : List Token) (tree : Tree) : Prop :=
  ∃ bound, ∀ fuel ≥ bound, ∀ flag,
    Reads place indent last flag (nested fuel).expression tokens tree next

section

variable {place : Place} {indent : Nat} {last : Lexeme}
variable {next : Option Token} {tokens : List Token} {tree : Tree}

theorem Derives.builds (ending : Ending indent last) (stops : ∀ token ∈ next, ends token = true)
    (derives : Derives .implemented (others place indent last) place.depth (.conditional tree)
      next tokens) : Builds place indent last next tokens tree := by
  refine eventually_atTop.mp ((Derives.term derives).meets ending fun token is => ?_)
  rw [strength_ends (stops token is)]
  exact Nat.one_pos

/-- A term of the documented grammar whose colons lead to a scope is read, and its tree
is that of the grammar in which identity is on the level of equality and a sign before
a number belongs to the literal. -/
theorem term_builds (ending : Ending indent last) (stops : ∀ token ∈ next, ends token = true)
    (derives : Derives .confined (others place indent last) place.depth (.conditional tree)
      next tokens) :
    ∃ parsed, Derives .implemented (others place indent last) place.depth (.conditional parsed)
        next tokens ∧
      Builds place indent last next tokens parsed := by
  obtain ⟨parsed, converted⟩ := derives.converts
  exact ⟨parsed, converted, converted.builds ending stops⟩

theorem Reads.unique {α : Type} {parser : Parser α} {flag : Bool} {a b : α}
    (first : Reads place indent last flag parser tokens a next)
    (second : Reads place indent last flag parser tokens b next) : a = b := by
  obtain ⟨behind, split⟩ := written_heading indent last flag tokens next []
  have stands : Stands place (written flag indent tokens ++ [lexemeOf indent last next])
      ⟨heading indent last flag tokens next, behind, List.replicate place.depth .empty,
        place.canJump, place.canReturn, []⟩ :=
    ⟨split.symm, List.length_replicate, rfl, rfl⟩
  obtain ⟨_, ran, _⟩ := first [] _ stands
  obtain ⟨_, again, _⟩ := second [] _ stands
  exact (Prod.mk.inj (Except.ok.inj (ran.symm.trans again))).1

theorem Builds.unique {other : Tree} (builds : Builds place indent last next tokens tree)
    (again : Builds place indent last next tokens other) : tree = other := by
  obtain ⟨bound, reads⟩ := builds
  obtain ⟨bound', reads'⟩ := again
  exact (reads (max bound bound') (le_max_left ..) false).unique
    (reads' (max bound bound') (le_max_right ..) false)

theorem Derives.lower {grammar : Grammar} {names : Others} {depth n m : Nat} (low : n ≤ m)
    (bound : m ≤ 11) (derives : Derives grammar names depth (.level m tree) next tokens) :
    Derives grammar names depth (.level n tree) next tokens := by
  induction low using Nat.decreasingInduction with
  | self => exact derives
  | of_succ n less lower =>
    have whole := Derives.level (by omega) lower Derives.chainEnd
    rwa [List.append_nil] at whole

theorem Derives.alone {grammar : Grammar} {names : Others} {depth : Nat}
    (derives : Derives grammar names depth (.primary tree) next tokens) {n : Nat} (low : n ≤ 11) :
    Derives grammar names depth (.level n tree) next tokens := by
  have whole : Derives grammar names depth (.unary tree) next (tokens ++ []) :=
    .chained derives .stepsEnd
  rw [List.append_nil] at whole
  exact (Derives.operand whole).lower low le_rfl

end

def Place.outermost : Place := ⟨1, false, false⟩

def endOfFile : Lexeme := ⟨.eof, true, 0⟩

theorem ending_endOfFile : Ending 0 endOfFile :=
  ⟨rfl, le_rfl, by decide⟩

/-- The documentation gives the tokens a tree that the parser does not build. -/
def Departs (tokens : List Token) (tree : Tree) : Prop :=
  Derives .documented (others .outermost 0 endOfFile) 1 (.conditional tree) none tokens ∧
    ¬Builds .outermost 0 endOfFile none tokens tree

section

variable {grammar : Grammar} {next : Option Token}

theorem symbol_alone (name : String) {n : Nat} (low : n ≤ 11) :
    Derives grammar (others .outermost 0 endOfFile) 1 (.level n (.symbolGet 0 true name)) next
      [.symbol name] :=
  Derives.alone (.symbol fun _ => by decide) low

theorem Derives.joined {names : Others} {depth n : Nat} {left right : Tree} {token : Token}
    {build : Tree → Tree → Tree} {first behind : List Token} (low : n ≤ 10)
    (operator : joinOf token = some build) (on : grammar.levelOf token = n)
    (left_ : Derives grammar names depth (.level (n + 1) left) (some token) first)
    (right_ : Derives grammar names depth (.level (n + 1) right) next behind) :
    Derives grammar names depth (.level n (build left right)) next
      (first ++ token :: behind) := by
  have chain : Derives grammar names depth (.chain n left (build left right)) next
      (token :: (behind ++ [])) := .chain operator on right_ .chainEnd
  rw [List.append_nil] at chain
  exact Derives.level low left_ chain

theorem term_builds_sum :
    ∃ parsed, Derives .implemented (others .outermost 0 endOfFile) 1 (.conditional parsed) none
        [.symbol "a", .plus, .symbol "b", .asterisk, .symbol "c"] ∧
      Builds .outermost 0 endOfFile none
        [.symbol "a", .plus, .symbol "b", .asterisk, .symbol "c"] parsed := by
  have product : Derives .confined (others .outermost 0 endOfFile) 1 (.level 10 _) none
      ([Token.symbol "b"] ++ Token.asterisk :: [Token.symbol "c"]) :=
    .joined (by decide) rfl rfl (symbol_alone "b" (by decide)) (symbol_alone "c" (by decide))
  have sum : Derives .confined (others .outermost 0 endOfFile) 1 (.level 9 _) none
      ([Token.symbol "a"] ++
        Token.plus :: ([Token.symbol "b"] ++ Token.asterisk :: [Token.symbol "c"])) :=
    .joined (by decide) rfl rfl (symbol_alone "a" (by decide)) product
  exact term_builds ending_endOfFile (by simp)
    (.orElse (sum.lower (Nat.zero_le 9) (by decide)))

/-- Equality binds as loosely as identity, a sign is taken into the number before what
is behind it, and colons that lead out of the module are an error. -/
theorem documented_departs :
    Departs [.symbol "a", .identical, .symbol "b", .equals, .symbol "c"]
      (.operate (.binary .identical) [.symbolGet 0 true "a",
        .operate (.binary .equals) [.symbolGet 0 true "b", .symbolGet 0 true "c"]]) ∧
    Departs [.hyphen, .integer 1, .dot, .symbol "f"]
      (.operate (.unary .minus) [.operate (.objectGet "f") [.literal (.integer 1)]]) ∧
    Departs [.colon 2, .symbol "x"] (.symbolGet 2 false "x") := by
  refine ⟨⟨?_, fun builds => ?_⟩, ⟨?_, fun builds => ?_⟩, ⟨?_, fun builds => ?_⟩⟩
  · refine .orElse (Derives.lower (Nat.zero_le 5) (by decide) ?_)
    refine Derives.joined (by decide) (rfl : joinOf .identical = _) rfl
      (symbol_alone "a" (by decide)) ?_
    exact Derives.joined (by decide) (rfl : joinOf .equals = _) rfl
      (symbol_alone "b" (by decide)) (symbol_alone "c" (by decide))
  · have chain : Derives .implemented (others .outermost 0 endOfFile) 1
        (.chain 6 (.symbolGet 0 true "a") (.operate (.binary .equals)
          [.operate (.binary .identical) [.symbolGet 0 true "a", .symbolGet 0 true "b"],
            .symbolGet 0 true "c"])) none
        (Token.identical ::
          ([Token.symbol "b"] ++ Token.equals :: ([Token.symbol "c"] ++ []))) :=
      .chain rfl rfl (symbol_alone "b" (by decide))
        (.chain rfl rfl (symbol_alone "c" (by decide)) .chainEnd)
    have parsed : Derives .implemented (others .outermost 0 endOfFile) 1 _ none
        [.symbol "a", .identical, .symbol "b", .equals, .symbol "c"] :=
      .level (by decide) (symbol_alone "a" (by decide)) chain
    have built := Derives.builds ending_endOfFile (by simp)
      (.orElse (parsed.lower (Nat.zero_le 6) (by decide)))
    exact absurd (builds.unique built) (by simp)
  · refine .orElse (Derives.lower (Nat.zero_le 11) (by decide) (.operand ?_))
    exact .sign rfl nofun (.chained (.literal rfl) (.steps .getter .stepsEnd))
  · have parsed : Derives .implemented (others .outermost 0 endOfFile) 1
        (.unary (.operate (.objectGet "f") [.literal (.integer (-1))])) none
        [.hyphen, .integer 1, .dot, .symbol "f"] :=
      .number rfl rfl rfl (.steps .getter .stepsEnd)
    have built := Derives.builds ending_endOfFile (by simp)
      (.orElse (Derives.lower (Nat.zero_le 11) (by decide) (.operand parsed)))
    exact absurd (builds.unique built) (by simp)
  · exact .orElse (Derives.alone (.symbol fun within => by cases within) (by decide))
  · obtain ⟨bound, reads⟩ := builds
    obtain ⟨after, ran, -⟩ := reads (bound + 1) (by omega) false []
      ⟨⟨.colon 2, false, 0⟩, [⟨.symbol "x", false, 0⟩, endOfFile], [.empty], false, false, []⟩
      ⟨rfl, rfl, rfl, rfl⟩
    cases ran

end

end Xemmai.Parser
