import Mathlib
import Xemmai.Grammar

/-!
# What the parser reads on a line

A parser reads tokens if, wherever it is at the first of them, it returns at the
token behind them and has left the place as it was. The rules follow the functions
of the parser; the loops and the functions that are entered again need enough fuel.
-/

namespace Xemmai.Parser

set_option autoImplicit false

open Xemmai.Tree

def written (flag : Bool) (indent : Nat) : List Token → List Lexeme
  | [] => []
  | token :: tokens => ⟨token, flag, indent⟩ :: tokens.map (⟨·, false, indent⟩)

/-- The state is at the first of the lexemes, in the place. -/
structure Stands (place : Place) (lexemes : List Lexeme) (state : State) : Prop where
  lexemes : state.current :: state.rest = lexemes
  depth : state.scopes.length = place.depth
  canJump : state.canJump = place.canJump
  canReturn : state.canReturn = place.canReturn

/-- The lexeme behind tokens of the line, which is `last` where the line ends. -/
def lexemeOf (indent : Nat) (last : Lexeme) : Option Token → Lexeme
  | none => last
  | some token => ⟨token, false, indent⟩

def heading (indent : Nat) (last : Lexeme) (flag : Bool) (tokens : List Token)
    (next : Option Token) : Lexeme :=
  match tokens with
  | [] => lexemeOf indent last next
  | token :: _ => ⟨token, flag, indent⟩

theorem heading_false {indent : Nat} {last : Lexeme} (tokens : List Token) (next : Option Token) :
    heading indent last false tokens next = lexemeOf indent last (following tokens next) := by
  cases tokens <;> rfl

theorem written_append {flag : Bool} {indent : Nat} {first behind : List Token}
    (flagged : first = [] → flag = false) :
    written flag indent (first ++ behind) =
      written flag indent first ++ written false indent behind := by
  cases first with
  | nil =>
    rw [flagged rfl]
    rfl
  | cons token first =>
    cases behind <;> simp [written]

theorem written_heading (indent : Nat) (last : Lexeme) (flag : Bool) (tokens : List Token)
    (next : Option Token) (rest : List Lexeme) :
    ∃ behind, written flag indent tokens ++ lexemeOf indent last next :: rest =
      heading indent last flag tokens next :: behind := by
  cases tokens with
  | nil => exact ⟨rest, rfl⟩
  | cons token tokens => exact ⟨_, rfl⟩

section

variable {α β : Type}
variable {place : Place} {indent : Nat} {last : Lexeme}

/-- The parser reads the tokens, the first of which may begin the line, and gives
`a` if `next` is behind them. -/
def Reads (place : Place) (indent : Nat) (last : Lexeme) (flag : Bool) (parser : Parser α)
    (tokens : List Token) (a : α) (next : Option Token) : Prop :=
  ∀ rest state,
    Stands place (written flag indent tokens ++ lexemeOf indent last next :: rest) state →
    ∃ after, parser state = .ok (a, after) ∧
      Stands place (lexemeOf indent last next :: rest) after

variable {flag : Bool} {tokens first behind : List Token} {next : Option Token}
variable {token : Token} {a : α} {b : β}

theorem Reads.returns : Reads place indent last flag (pure a) [] a next :=
  fun _ state stands => ⟨state, rfl, stands⟩

theorem Reads.bind {parser : Parser α} {continue_ : α → Parser β}
    (reads : Reads place indent last flag parser first a (following behind next))
    (continues : Reads place indent last false (continue_ a) behind b next)
    (flagged : first = [] → flag = false) :
    Reads place indent last flag (parser >>= continue_) (first ++ behind) b next := by
  intro rest state stands
  rw [written_append flagged, List.append_assoc] at stands
  obtain ⟨others, split⟩ := written_heading indent last false behind next rest
  rw [split, heading_false] at stands
  obtain ⟨middle, ran, stood⟩ := reads others state stands
  rw [← heading_false, ← split] at stood
  obtain ⟨after, continued, left⟩ := continues rest middle stood
  refine ⟨after, ?_, left⟩
  change (parser state >>= fun result => continue_ result.1 result.2) = _
  rw [ran]
  exact continued

theorem Reads.skip {parser : Parser α} {continue_ : α → Parser β}
    (reads : Reads place indent last false parser [] a (following tokens next))
    (continues : Reads place indent last false (continue_ a) tokens b next) :
    Reads place indent last false (parser >>= continue_) tokens b next :=
  reads.bind continues fun _ => rfl

theorem Reads.maps {parser : Parser α} {f : α → β}
    (reads : Reads place indent last flag parser tokens a next) :
    Reads place indent last flag (parser >>= fun a => pure (f a)) tokens (f a) next := by
  intro rest state stands
  obtain ⟨after, ran, stood⟩ := reads rest state stands
  refine ⟨after, ?_, stood⟩
  change (parser state >>= fun result => (pure (f result.1) : Parser β) result.2) = _
  rw [ran]
  rfl

theorem Reads.get {continue_ : State → Parser β}
    (continues : ∀ state : State, state.scopes.length = place.depth →
      state.canJump = place.canJump → state.canReturn = place.canReturn →
      Reads place indent last flag (continue_ state) tokens b next) :
    Reads place indent last flag (get >>= continue_) tokens b next :=
  fun rest state stands =>
    continues state stands.depth stands.canJump stands.canReturn rest state stands

theorem Reads.current {continue_ : Lexeme → Parser β}
    (continues : Reads place indent last flag
      (continue_ (heading indent last flag tokens next)) tokens b next) :
    Reads place indent last flag (Parser.current >>= continue_) tokens b next := by
  intro rest state stands
  obtain ⟨others, split⟩ := written_heading indent last flag tokens next rest
  have is : state.current = heading indent last flag tokens next :=
    (List.cons.inj (stands.lexemes.trans split)).1
  obtain ⟨after, ran, stood⟩ := continues rest state stands
  refine ⟨after, ?_, stood⟩
  change continue_ state.current state = _
  rw [is]
  exact ran

theorem advance_of_rest {state : Parser.State} {lexeme : Lexeme} {rest : List Lexeme}
    (behind : state.rest = lexeme :: rest) :
    Parser.advance state = .ok ((), { state with
      current := lexeme
      rest := rest }) := by
  obtain ⟨current, ahead⟩ := state
  cases behind
  rfl

theorem Reads.advance {continue_ : Unit → Parser β}
    (continues : Reads place indent last false (continue_ ()) tokens b next) :
    Reads place indent last flag (Parser.advance >>= continue_) (token :: tokens) b next := by
  intro rest state stands
  obtain ⟨others, split⟩ := written_heading indent last false tokens next rest
  have whole : state.current :: state.rest = ⟨token, flag, indent⟩ ::
      (written false indent tokens ++ lexemeOf indent last next :: rest) := by
    rw [stands.lexemes]
    cases tokens <;> rfl
  have behind := (List.cons.inj whole).2
  obtain ⟨after, ran, stood⟩ := continues rest
    { state with
      current := heading indent last false tokens next
      rest := others }
    ⟨split.symm, stands.depth, stands.canJump, stands.canReturn⟩
  refine ⟨after, ?_, stood⟩
  have advanced : Parser.advance state = .ok ((), { state with
      current := heading indent last false tokens next
      rest := others }) := advance_of_rest (behind.trans split)
  change (Parser.advance state >>= fun result => continue_ result.1 result.2) = _
  rw [advanced]
  exact ran

theorem Reads.advances :
    Reads place indent last flag Parser.advance [token] () next := by
  rw [← bind_pure Parser.advance]
  exact Reads.advance Reads.returns

theorem Reads.ensure {met : Bool} {message : String} {continue_ : Unit → Parser β}
    (holds : met = true)
    (continues : Reads place indent last flag (continue_ ()) tokens b next) :
    Reads place indent last flag (Parser.ensure met message >>= continue_) tokens b next := by
  subst holds
  exact continues

theorem Reads.modify {change : State → State} {continue_ : Unit → Parser β}
    (changes : ∀ state : State, ∀ lexemes, Stands place lexemes state →
      Stands place lexemes (change state))
    (continues : Reads place indent last flag (continue_ ()) tokens b next) :
    Reads place indent last flag (modify change >>= continue_) tokens b next :=
  fun rest state stands => continues rest (change state) (changes state _ stands)

theorem Reads.modifyScope {outer : Nat} {change : Scope → Scope} {continue_ : Unit → Parser β}
    (continues : Reads place indent last flag (continue_ ()) tokens b next) :
    Reads place indent last flag (Parser.modifyScope outer change >>= continue_) tokens b next := by
  refine Reads.modify (fun state lexemes stands => ?_) continues
  exact ⟨stands.lexemes, (List.length_modify ..).trans stands.depth, stands.canJump,
    stands.canReturn⟩

theorem Reads.turns {σ : Type} {turn : σ → Parser (σ ⊕ α)} {more : Nat} {before middle : σ}
    (reads : Reads place indent last flag (turn before) first (.inl middle)
      (following behind next))
    (continues : Reads place indent last false (loop turn more middle) behind a next)
    (flagged : first = [] → flag = false) :
    Reads place indent last flag (loop turn (more + 1) before) (first ++ behind) a next := by
  rw [loop]
  exact reads.bind continues flagged

theorem Reads.stops {σ : Type} {turn : σ → Parser (σ ⊕ α)} {more : Nat} {before : σ}
    (reads : Reads place indent last flag (turn before) tokens (.inr a) next) :
    Reads place indent last flag (loop turn (more + 1) before) tokens a next := by
  rw [loop]
  intro rest state stands
  obtain ⟨after, ran, stood⟩ := reads rest state stands
  refine ⟨after, ?_, stood⟩
  change (turn before state >>= fun result => _) = _
  rw [ran]
  rfl

end

end Xemmai.Parser
