import Mathlib.Data.Finset.Sort
import Mathlib.Data.Prod.Lex
import Mathlib.Data.String.Basic
import Xemmai.Tables

/-!
# Break points

The safe points of a debugged script, the instructions that they are, and the table of
break points that the debugger keeps by path and line. Scripts are found by the modules
whose bodies they are; a module is made when its script has been executed, and the script
that the engine is started with is the body of none.
-/

namespace Xemmai.BreakPoints

set_option autoImplicit false

inductive Instruction
  | safePoint
  | breakPoint
  | other
  deriving DecidableEq, Repr

/-- `v_at` of a node, of which the lexer counts the lines from one. -/
structure Position where
  line : Nat
  column : Nat
  positive : 0 < line
  deriving DecidableEq, Repr

/-- The words of `v_instructions` of a code and where they are: those that
`f_emit_safe_point` writes have the position of its node. -/
structure Code where
  base : Nat
  words : List (Option Position)
  deriving DecidableEq, Repr

/-- An entry of `v_safe_points`: a line and an address, and a column. -/
abbrev Entry := (Nat ×ₗ Nat) × Nat

def Entry.line (entry : Entry) : Nat := (ofLex entry.1).1

def Entry.address (entry : Entry) : Nat := (ofLex entry.1).2

def Entry.column (entry : Entry) : Nat := entry.2

namespace Code

def point (code : Code) (address : Nat) : Option Position :=
  if code.base ≤ address then (code.words[address - code.base]?).join else none

/-- `v_safe_positions` of a code as entries. -/
def points (code : Code) : List Entry :=
  code.words.zipIdx.filterMap fun (word, a) =>
    word.map fun position => (toLex (position.line, code.base + a), position.column)

def Covers (code : Code) (address : Nat) : Prop :=
  code.base ≤ address ∧ address < code.base + code.words.length

end Code

structure Codes where
  codes : List Code
  apart : ∀ one ∈ codes, ∀ other ∈ codes, ∀ address,
    one.Covers address → other.Covers address → one = other

/-- `t_debug_script`: every safe point is entered once, and has a line. -/
structure Script where
  path : String
  safePoints : List Entry
  code : Nat → Instruction
  ordered : Keyed.Ordered safePoints
  positive : ∀ entry ∈ safePoints, 0 < entry.line
  apart : ∀ one ∈ safePoints, ∀ other ∈ safePoints, one.address = other.address → one = other
  pointed : ∀ address, code address ≠ .other ↔ ∃ entry ∈ safePoints, entry.address = address

/-! ### Loading -/

theorem mem_points {code : Code} {entry : Entry} :
    entry ∈ code.points ↔ ∃ position, code.point entry.address = some position ∧
      entry.line = position.line ∧ entry.column = position.column := by
  unfold Code.points
  rw [List.mem_filterMap]
  constructor
  · intro ⟨(word, a), member, same⟩
    have at_ := List.mk_mem_zipIdx_iff_getElem?.mp member
    obtain ⟨position, rfl, rfl⟩ := Option.map_eq_some_iff.mp same
    refine ⟨position, ?_, rfl, rfl⟩
    change code.point (code.base + a) = some position
    rw [Code.point, if_pos (Nat.le_add_right ..), Nat.add_sub_cancel_left, at_]
    rfl
  · intro ⟨position, found, line, column⟩
    unfold Code.point at found
    split at found
    · rename_i from_
      have at_ := Option.join_eq_some_iff.mp found
      refine ⟨(some position, entry.address - code.base),
        List.mk_mem_zipIdx_iff_getElem?.mpr at_, ?_⟩
      have same : ((toLex (position.line, code.base + (entry.address - code.base)),
          position.column) : Entry) = entry := by
        rw [Nat.add_sub_cancel' from_, ← line, ← column]
        rfl
      exact congrArg some same
    · cases found

theorem point_covers {code : Code} {address : Nat} {position : Position}
    (found : code.point address = some position) : code.Covers address := by
  unfold Code.point at found
  split at found
  · rename_i from_
    obtain ⟨short, _⟩ := List.getElem?_eq_some_iff.mp (Option.join_eq_some_iff.mp found)
    exact ⟨from_, by omega⟩
  · cases found

namespace Codes

variable (codes : Codes)

/-- What `f_safe_points` makes of the codes. -/
def safePoints : List Entry :=
  Keyed.build (codes.codes.flatMap Code.points)

variable {codes}

theorem mem_safePoints {entry : Entry} (member : entry ∈ codes.safePoints) :
    ∃ code ∈ codes.codes, ∃ position, code.point entry.address = some position ∧
      entry.line = position.line ∧ entry.column = position.column := by
  obtain ⟨code, among, point⟩ := List.mem_flatMap.mp (Keyed.mem_build member)
  exact ⟨code, among, mem_points.mp point⟩

variable (codes)

/-- A script that has been emitted. -/
def load (path : String) : Script where
  path := path
  safePoints := codes.safePoints
  code address :=
    if codes.codes.any fun code => (code.point address).isSome then .safePoint else .other
  ordered := Keyed.ordered_build _
  positive entry member := by
    obtain ⟨code, _, position, _, line, _⟩ := mem_safePoints member
    rw [line]
    exact position.positive
  apart one member other member' same := by
    obtain ⟨code, among, position, found, line, column⟩ := mem_safePoints member
    obtain ⟨code', among', position', found', line', column'⟩ := mem_safePoints member'
    rw [← same] at found'
    have codes_ := codes.apart code among code' among' _ (point_covers found)
      (point_covers found')
    rw [← codes_, found] at found'
    cases found'
    have key : one.1 = other.1 := Prod.ext (line.trans line'.symm) same
    exact Prod.ext key (column.trans column'.symm)
  pointed address := by
    have any : (codes.codes.any fun code => (code.point address).isSome) = true ↔
        ∃ entry ∈ codes.safePoints, entry.address = address := by
      rw [List.any_eq_true]
      constructor
      · intro ⟨code, among, some_⟩
        obtain ⟨position, found⟩ := Option.isSome_iff_exists.mp some_
        have point : ((toLex (position.line, address), position.column) : Entry) ∈ code.points :=
          mem_points.mpr ⟨position, found, rfl, rfl⟩
        obtain ⟨entry, member, key⟩ := List.mem_map.mp
          (Keyed.key_build (List.mem_flatMap.mpr ⟨code, among, point⟩))
        exact ⟨entry, member, congrArg (fun key => (ofLex key).2) key⟩
      · intro ⟨entry, member, same⟩
        obtain ⟨code, among, position, found, _⟩ := mem_safePoints member
        exact ⟨code, among, by rw [← same, found]; rfl⟩
    rw [← any]
    split
    · rename_i found
      exact ⟨fun _ => found, fun _ => Instruction.noConfusion⟩
    · rename_i missed
      exact ⟨fun not => absurd rfl not, fun found => absurd found missed⟩

end Codes

/-! ### Setting and resetting -/

namespace Script

def from_ (script : Script) (line : Nat) : Option Entry :=
  script.safePoints[Keyed.lowerBound (toLex (line, 0)) script.safePoints]?

/-- The loop of `f_replace_break_point` for a column. -/
def seek (line column : Nat) : List Entry → Option Entry
  | [] => none
  | entry :: rest =>
    if entry.line ≠ line then none
    else if entry.column = column then some entry
    else seek line column rest

/-- The entry that `f_replace_break_point` comes to. -/
def entryAt (script : Script) (line column : Nat) : Option Entry :=
  if 0 < column then
    seek line column
      (script.safePoints.drop (Keyed.lowerBound (toLex (line, 0)) script.safePoints))
  else script.from_ line

/-- Writing an instruction to the safe point of an entry. -/
def write (script : Script) (entry : Entry) (member : entry ∈ script.safePoints)
    (instruction : Instruction) (proper : instruction ≠ .other) : Script :=
  { script with
    code := Function.update script.code entry.address instruction
    pointed := fun address => by
      by_cases here : address = entry.address
      · subst here
        rw [Function.update_self]
        exact ⟨fun _ => ⟨entry, member, rfl⟩, fun _ => proper⟩
      · rw [Function.update_of_ne here]
        exact script.pointed address }

variable {script : Script} {line column : Nat} {entry : Entry}

theorem mem_from (found : script.from_ line = some entry) : entry ∈ script.safePoints :=
  List.mem_of_getElem? found

theorem mem_seek {entries : List Entry} (found : seek line column entries = some entry) :
    entry ∈ entries ∧ entry.line = line ∧ entry.column = column := by
  induction entries with
  | nil => cases found
  | cons first rest induction =>
      rw [seek] at found
      split at found
      · cases found
      · rename_i same
        split at found
        · rename_i same'
          cases found
          exact ⟨List.mem_cons_self, not_not.mp same, same'⟩
        · obtain ⟨member, rest⟩ := induction found
          exact ⟨List.mem_cons_of_mem _ member, rest⟩

theorem mem_entryAt (found : script.entryAt line column = some entry) :
    entry ∈ script.safePoints := by
  unfold entryAt at found
  split at found
  · exact List.mem_of_mem_drop (mem_seek found).1
  · exact mem_from found

def replaceBreakPoint (script : Script) (line column : Nat) (old new : Instruction)
    (proper : new ≠ .other) : (Nat × Nat) × Script :=
  match found : script.entryAt line column with
  | none => ((0, 0), script)
  | some entry =>
    ((entry.line, entry.column),
      if script.code entry.address = old then script.write entry (mem_entryAt found) new proper
      else script)

def setBreakPoint (script : Script) (line column : Nat) : (Nat × Nat) × Script :=
  script.replaceBreakPoint line column .safePoint .breakPoint (by decide)

def resetBreakPoint (script : Script) (line column : Nat) : (Nat × Nat) × Script :=
  script.replaceBreakPoint line column .breakPoint .safePoint (by decide)

end Script

/-! ### The debugger -/

/-- The scripts that have been loaded; `v_module__instances`, with the number of the script
whose body a module has; and `v_break_points`. -/
structure State where
  scripts : List Script
  modules : List (String × Option Nat)
  breakPoints : List (String × Finset Nat)
  orderedModules : Keyed.Ordered modules
  orderedBreakPoints : Keyed.Ordered breakPoints

/-- What the engine does with scripts and modules, and the commands at the prompt. -/
inductive Event
  | load (path : String) (codes : Codes)
  | instantiate (name : String) (body : Option Nat)
  | finalize (name : String)
  | set (path : String) (line : Nat)
  | reset (path : String) (line : Nat)

namespace State

def findModule (state : State) (path : String) : Option Nat :=
  state.modules.findSome? fun (_, body) =>
    body.bind fun number =>
      (state.scripts[number]?).bind fun script => if script.path = path then some number else none

/-- `i->second.insert(a_line)` for the path, which is emplaced if it is not there. -/
def insert (state : State) (path : String) (line : Nat) : State :=
  match Keyed.find path state.breakPoints with
  | none =>
    { state with
      breakPoints := Keyed.emplace path {line} state.breakPoints
      orderedBreakPoints := Keyed.ordered_emplace state.orderedBreakPoints }
  | some lines =>
    { state with
      breakPoints := Keyed.assign path (Insert.insert line lines) state.breakPoints
      orderedBreakPoints := Keyed.ordered_assign state.orderedBreakPoints }

/-- The lines of a path, which is erased if there are none. -/
def assign (state : State) (path : String) (lines : Finset Nat) : State :=
  if lines = ∅ then
    { state with
      breakPoints := Keyed.erase path state.breakPoints
      orderedBreakPoints := Keyed.ordered_erase state.orderedBreakPoints }
  else
    { state with
      breakPoints := Keyed.assign path lines state.breakPoints
      orderedBreakPoints := Keyed.ordered_assign state.orderedBreakPoints }

def put (state : State) (number : Nat) (script : Script) : State :=
  { state with scripts := state.scripts.set number script }

def setBreakPoint (state : State) (path : String) (line : Nat) : State :=
  match state.findModule path with
  | none => state.insert path line
  | some number =>
    match state.scripts[number]? with
    | none => state
    | some script =>
      let (at_, script) := script.setBreakPoint line 0
      let state := state.put number script
      if at_.1 ≤ 0 then state else state.insert path at_.1

/-- A turn of the loop of `f_set_break_points`. -/
def setLine (found : Script × Finset Nat) (line : Nat) : Script × Finset Nat :=
  let (at_, script) := found.1.setBreakPoint line 0
  (script, if 0 < at_.1 then Insert.insert at_.1 found.2 else found.2)

/-- `f_set_break_points` for a script that has been loaded. -/
def setBreakPoints (state : State) (script : Script) : State :=
  match Keyed.find script.path state.breakPoints with
  | none => { state with scripts := state.scripts ++ [script] }
  | some lines =>
    let (script, lines) := (lines.sort (· ≤ ·)).foldl setLine (script, ∅)
    { state with scripts := state.scripts ++ [script] }.assign script.path lines

def resetBreakPoint (state : State) (path : String) (line : Nat) : State :=
  match Keyed.find path state.breakPoints with
  | none => state
  | some lines =>
    let lines := lines.erase line
    match state.findModule path with
    | none => state.assign path lines
    | some number =>
      match state.scripts[number]? with
      | none => state
      | some script =>
        let (at_, script) := script.resetBreakPoint line 1
        let state := state.put number script
        state.assign path (if 0 < at_.1 then lines.erase at_.1 else lines)

/-- `f_new` of a module emplaces its name and then has the module there. -/
def instantiate (state : State) (name : String) (body : Option Nat) : State :=
  { state with
    modules := Keyed.assign name body (Keyed.emplace name none state.modules)
    orderedModules := Keyed.ordered_assign (Keyed.ordered_emplace state.orderedModules) }

/-- `~t_module` -/
def finalize (state : State) (name : String) : State :=
  { state with
    modules := Keyed.erase name state.modules
    orderedModules := Keyed.ordered_erase state.orderedModules }

def step (state : State) : Event → State
  | .load path codes => state.setBreakPoints (codes.load path)
  | .instantiate name body => state.instantiate name body
  | .finalize name => state.finalize name
  | .set path line => if 0 < line then state.setBreakPoint path line else state
  | .reset path line => if 0 < line then state.resetBreakPoint path line else state

def start : State where
  scripts := []
  modules := []
  breakPoints := []
  orderedModules := .nil
  orderedBreakPoints := .nil

end State

/-! ### Safe points of a line -/

namespace Script

/-- The script has a safe point on the line. -/
def Has (script : Script) (line : Nat) : Prop :=
  ∃ entry ∈ script.safePoints, entry.line = line

/-- The first safe point of the line is at the address. -/
def First (script : Script) (line address : Nat) : Prop :=
  (∃ entry ∈ script.safePoints, entry.line = line ∧ entry.address = address) ∧
    ∀ entry ∈ script.safePoints, entry.line = line → address ≤ entry.address

def moved (script : Script) (line : Nat) : Option Nat :=
  (script.from_ line).map Entry.line

/-- The break points are the first safe points of the lines. -/
def Agrees (script : Script) (lines : Nat → Prop) : Prop :=
  ∀ address, script.code address = .breakPoint ↔ ∃ line, lines line ∧ script.First line address

variable {script other : Script} {line column address : Nat} {entry : Entry}
variable {lines lines' : Nat → Prop}

theorem le_iff {one other : Entry} : one.1 ≤ other.1 ↔
    one.line < other.line ∨ one.line = other.line ∧ one.address ≤ other.address :=
  Prod.Lex.le_iff

theorem above_iff {entry : Entry} : toLex (line, 0) ≤ entry.1 ↔ line ≤ entry.line := by
  constructor
  · intro above
    rcases Prod.Lex.le_iff.mp above with less | same
    · exact Nat.le_of_lt less
    · exact same.1.le
  · intro above
    apply Prod.Lex.le_iff.mpr
    rcases Nat.lt_or_eq_of_le above with less | same
    · exact .inl less
    · exact .inr ⟨same, Nat.zero_le _⟩

theorem from_line (found : script.from_ line = some entry) : line ≤ entry.line :=
  above_iff.mp (Keyed.le_of_lowerBound found)

theorem from_first (found : script.from_ line = some entry) :
    script.First entry.line entry.address := by
  refine ⟨⟨entry, mem_from found, rfl, rfl⟩, fun other member same => ?_⟩
  have above : toLex (line, 0) ≤ other.1 := above_iff.mpr (same ▸ from_line found)
  rcases le_iff.mp (Keyed.lowerBound_least script.ordered found member above) with less | least
  · exact absurd same (Nat.ne_of_gt less)
  · exact least.2

theorem from_has (has : script.Has line) :
    ∃ entry, script.from_ line = some entry ∧ entry.line = line := by
  obtain ⟨other, member, same⟩ := has
  have above : toLex (line, 0) ≤ other.1 := above_iff.mpr same.ge
  obtain ⟨entry, found⟩ := Keyed.exists_lowerBound member above
  have least := le_iff.mp (Keyed.lowerBound_least script.ordered found member above)
  have from_ := from_line found
  exact ⟨entry, found, by omega⟩

theorem First.has (first : script.First line address) : script.Has line := by
  obtain ⟨⟨entry, member, same, _⟩, _⟩ := first
  exact ⟨entry, member, same⟩

theorem First.unique {address' : Nat} (first : script.First line address)
    (first' : script.First line address') : address = address' := by
  obtain ⟨⟨entry, member, same, here⟩, least⟩ := first
  obtain ⟨⟨entry', member', same', here'⟩, least'⟩ := first'
  have le := least entry' member' same'
  have ge := least' entry member same
  omega

theorem First.line_unique {line' : Nat} (first : script.First line address)
    (first' : script.First line' address) : line = line' := by
  obtain ⟨⟨entry, member, same, here⟩, _⟩ := first
  obtain ⟨⟨entry', member', same', here'⟩, _⟩ := first'
  rw [← same, ← same', script.apart entry member entry' member' (here.trans here'.symm)]

theorem exists_first (has : script.Has line) : ∃ address, script.First line address := by
  obtain ⟨entry, found, same⟩ := from_has has
  exact ⟨entry.address, same ▸ from_first found⟩

/-- A script that agrees with some lines agrees with others if and only if they are the
same where it has safe points. -/
theorem Agrees.congr (agrees : script.Agrees lines) :
    script.Agrees lines' ↔ ∀ line, script.Has line → (lines line ↔ lines' line) := by
  constructor
  · intro agrees' line has
    obtain ⟨address, first⟩ := exists_first has
    have same : (∃ line, lines line ∧ script.First line address) ↔
        ∃ line, lines' line ∧ script.First line address :=
      (agrees address).symm.trans (agrees' address)
    have only (lines : Nat → Prop) : (∃ line, lines line ∧ script.First line address) ↔
        lines line := by
      constructor
      · intro ⟨line', listed, first'⟩
        rw [first.line_unique first']
        exact listed
      · exact fun listed => ⟨line, listed, first⟩
    rw [← only lines, same, only lines']
  · intro same address
    rw [agrees address]
    apply exists_congr
    intro line
    apply and_congr_left
    exact fun first => same line first.has

/-- What a script has of its own is not changed by break points. -/
structure Same (script other : Script) : Prop where
  path : other.path = script.path
  safePoints : other.safePoints = script.safePoints

theorem Same.first (same : Same script other) : other.First = script.First := by
  unfold First
  rw [same.safePoints]

theorem Same.has (same : Same script other) : other.Has = script.Has := by
  unfold Has
  rw [same.safePoints]

theorem Same.from_ (same : Same script other) : other.from_ = script.from_ := by
  unfold Script.from_
  rw [same.safePoints]

theorem Agrees.of_code (same : Same script other) (code : other.code = script.code) :
    other.Agrees lines ↔ script.Agrees lines := by
  unfold Agrees
  rw [same.first, code]

section

variable {old new : Instruction} {proper : new ≠ .other}

theorem replace_none (found : script.entryAt line column = none) :
    script.replaceBreakPoint line column old new proper = ((0, 0), script) := by
  unfold replaceBreakPoint
  split
  · rfl
  · rename_i some_
    rw [found] at some_
    cases some_

theorem replace_some (found : script.entryAt line column = some entry) :
    script.replaceBreakPoint line column old new proper = ((entry.line, entry.column),
      if script.code entry.address = old then script.write entry (mem_entryAt found) new proper
      else script) := by
  unfold replaceBreakPoint
  split
  · rename_i none_
    rw [found] at none_
    cases none_
  · rename_i other found'
    rw [found] at found'
    cases found'
    rfl

theorem replace_same :
    Same script (script.replaceBreakPoint line column old new proper).2 := by
  cases found : script.entryAt line column with
  | none =>
      rw [replace_none found]
      exact ⟨rfl, rfl⟩
  | some entry =>
      rw [replace_some found]
      dsimp only
      split
      · exact ⟨rfl, rfl⟩
      · exact ⟨rfl, rfl⟩

end

/-- Setting at a line makes the first safe point of the line that it is moved to a break
point. -/
theorem set_agrees (agrees : script.Agrees lines) (found : script.from_ line = some entry) :
    (script.setBreakPoint line 0).2.Agrees fun other => other = entry.line ∨ lines other := by
  have at_ : script.entryAt line 0 = some entry := found
  have first := from_first found
  have same : Same script (script.setBreakPoint line 0).2 := replace_same
  have code : (script.setBreakPoint line 0).2.code =
      Function.update script.code entry.address .breakPoint := by
    unfold setBreakPoint
    rw [replace_some at_]
    dsimp only
    split
    · rfl
    · -- what is neither a safe point nor another instruction is a break point already
      rename_i other
      have pointed : script.code entry.address ≠ .other :=
        (script.pointed _).mpr ⟨entry, mem_from found, rfl⟩
      have already : script.code entry.address = .breakPoint := by
        cases is : script.code entry.address with
        | safePoint => exact absurd is other
        | breakPoint => rfl
        | other => exact absurd is pointed
      rw [← already, Function.update_eq_self]
  intro address
  rw [same.first, code]
  by_cases here : address = entry.address
  · rw [here, Function.update_self]
    exact ⟨fun _ => ⟨entry.line, .inl rfl, first⟩, fun _ => rfl⟩
  · rw [Function.update_of_ne here, agrees address]
    constructor
    · intro ⟨other, listed, first'⟩
      exact ⟨other, .inr listed, first'⟩
    · intro ⟨other, listed, first'⟩
      cases listed with
      | inl same => exact absurd ((same ▸ first').unique first) here
      | inr listed => exact ⟨other, listed, first'⟩

/-- The first safe point of the line is in the first column. -/
def Leads (script : Script) (line : Nat) : Prop :=
  ∃ entry, script.from_ line = some entry ∧ entry.line = line ∧ entry.column = 1

theorem drop_from (script : Script) (line : Nat) :
    script.safePoints.drop (Keyed.lowerBound (toLex (line, 0)) script.safePoints) =
      match script.from_ line with
      | none => []
      | some entry =>
        entry :: script.safePoints.drop
          (Keyed.lowerBound (toLex (line, 0)) script.safePoints + 1) := by
  unfold from_
  cases found : script.safePoints[Keyed.lowerBound (toLex (line, 0)) script.safePoints]? with
  | none => exact List.drop_eq_nil_of_le (List.getElem?_eq_none_iff.mp found)
  | some entry =>
      obtain ⟨short, same⟩ := List.getElem?_eq_some_iff.mp found
      rw [List.drop_eq_getElem_cons short, same]

theorem entryAt_leads (found : script.from_ line = some entry) (same : entry.line = line)
    (leads : entry.column = 1) : script.entryAt line 1 = some entry := by
  unfold entryAt
  rw [if_pos Nat.one_pos, drop_from, found]
  dsimp only
  rw [seek, if_neg (not_not.mpr same), if_pos leads]

/-- The code is changed by resetting only where the first safe point of a line that is
listed is in the first column. -/
theorem reset_code (agrees : script.Agrees lines) (line : Nat) :
    (script.resetBreakPoint line 1).2.code = script.code ∧ ¬(lines line ∧ script.Leads line) ∨
      ∃ address, script.First line address ∧ script.code address = .breakPoint ∧
        (script.resetBreakPoint line 1).2.code =
          Function.update script.code address .safePoint ∧ lines line ∧ script.Leads line := by
  unfold resetBreakPoint
  cases at_ : script.entryAt line 1 with
  | none =>
      rw [replace_none at_]
      refine .inl ⟨rfl, fun ⟨_, entry, found, same, leads⟩ => ?_⟩
      rw [entryAt_leads found same leads] at at_
      cases at_
  | some entry =>
      have seeks : entry ∈ script.safePoints ∧ entry.line = line ∧ entry.column = 1 := by
        have sought : seek line 1 (script.safePoints.drop
            (Keyed.lowerBound (toLex (line, 0)) script.safePoints)) = some entry := by
          rw [← at_, entryAt, if_pos Nat.one_pos]
        exact ⟨mem_entryAt at_, (mem_seek sought).2⟩
      rw [replace_some at_]
      dsimp only
      split
      · rename_i set_
        obtain ⟨line', listed, first⟩ := (agrees entry.address).mp set_
        -- only the first safe point of its line is a break point
        have same : line' = line := by
          obtain ⟨⟨other, member, there, here⟩, _⟩ := first
          rw [← there, script.apart other member entry seeks.1 here, seeks.2.1]
        rw [same] at listed first
        refine .inr ⟨entry.address, first, set_, rfl, listed, ?_⟩
        obtain ⟨lead, found, there⟩ := from_has first.has
        have both : lead = entry := by
          apply script.apart lead (mem_from found) entry seeks.1
          exact (there ▸ from_first found).unique first
        exact ⟨lead, found, there, both ▸ seeks.2.2⟩
      · rename_i unset
        refine .inl ⟨rfl, fun ⟨listed, lead, found, same, leads⟩ => ?_⟩
        rw [entryAt_leads found same leads] at at_
        cases at_
        exact unset ((agrees _).mpr ⟨line, listed, same ▸ from_first found⟩)

/-- Resetting a line keeps the agreement if and only if a line that is listed and has safe
points has the first of them in the first column. -/
theorem reset_agrees (agrees : script.Agrees lines) (line : Nat) :
    ((script.resetBreakPoint line 1).2.Agrees fun other => other ≠ line ∧ lines other) ↔
      (lines line → script.Has line → script.Leads line) := by
  have same : Same script (script.resetBreakPoint line 1).2 := replace_same
  cases reset_code agrees line with
  | inl kept =>
      rw [Agrees.of_code same kept.1, agrees.congr]
      constructor
      · intro alike listed has
        exact absurd rfl ((alike line has).mp listed).1
      · intro leads other has
        constructor
        · intro listed
          refine ⟨fun here => ?_, listed⟩
          subst here
          exact kept.2 ⟨listed, leads listed has⟩
        · exact And.right
  | inr cleared =>
      obtain ⟨address, first, _, code, listed, leads⟩ := cleared
      refine iff_of_true (fun other => ?_) fun _ _ => leads
      rw [same.first, code]
      by_cases here : other = address
      · subst here
        rw [Function.update_self]
        refine iff_of_false Instruction.noConfusion fun ⟨line', apart, first'⟩ => ?_
        exact apart.1 (first'.line_unique first)
      · rw [Function.update_of_ne here, agrees other]
        apply exists_congr
        intro line'
        apply and_congr_left
        intro first'
        constructor
        · intro listed
          refine ⟨fun same => ?_, listed⟩
          subst same
          exact here (first'.unique first)
        · exact And.right

theorem set_none (missed : script.from_ line = none) :
    script.setBreakPoint line 0 = ((0, 0), script) := by
  apply replace_none
  exact missed

theorem set_line (found : script.from_ line = some entry) :
    (script.setBreakPoint line 0).1.1 = entry.line := by
  have at_ : script.entryAt line 0 = some entry := found
  unfold setBreakPoint
  rw [replace_some at_]

theorem reset_line (script : Script) (line : Nat) :
    (script.resetBreakPoint line 1).1.1 = 0 ∨ (script.resetBreakPoint line 1).1.1 = line := by
  unfold resetBreakPoint
  cases at_ : script.entryAt line 1 with
  | none =>
      rw [replace_none at_]
      exact .inl rfl
  | some entry =>
      rw [replace_some at_]
      rw [entryAt, if_pos Nat.one_pos] at at_
      exact .inr (mem_seek at_).2.1

theorem reset_same : Same script (script.resetBreakPoint line 1).2 := replace_same

theorem set_same : Same script (script.setBreakPoint line 0).2 := replace_same

theorem Same.moved (same : Same script other) : other.moved = script.moved := by
  unfold Script.moved
  rw [same.from_]

theorem setLine_agrees {found : Script × Finset Nat} (agrees : found.1.Agrees (· ∈ found.2))
    (line : Nat) :
    (State.setLine found line).1.Agrees (· ∈ (State.setLine found line).2) ∧
      Same found.1 (State.setLine found line).1 ∧
      ∀ other, other ∈ (State.setLine found line).2 ↔
        other ∈ found.2 ∨ found.1.moved line = some other := by
  cases at_ : found.1.from_ line with
  | none =>
      have kept : State.setLine found line = found := by
        unfold State.setLine
        rw [set_none at_]
        rfl
      have stays : found.1.moved line = none := by
        unfold Script.moved
        rw [at_]
        rfl
      rw [kept, stays]
      exact ⟨agrees, ⟨rfl, rfl⟩, by simp⟩
  | some entry =>
      have positive : 0 < entry.line := found.1.positive entry (mem_from at_)
      have lines : (State.setLine found line).2 = Insert.insert entry.line found.2 := by
        unfold State.setLine
        dsimp only
        rw [set_line at_, if_pos positive]
      have moves : found.1.moved line = some entry.line := by
        unfold Script.moved
        rw [at_]
        rfl
      refine ⟨?_, set_same, fun other => ?_⟩
      · have set_ := set_agrees agrees at_
        simp only [lines, Finset.mem_insert]
        exact set_
      · rw [lines, Finset.mem_insert, moves, Option.some.injEq, or_comm, eq_comm]

/-- The break points that the lines of a path are moved to when a script is loaded. -/
theorem setLines_agrees (moves : List Nat) {found : Script × Finset Nat}
    (agrees : found.1.Agrees (· ∈ found.2)) :
    (moves.foldl State.setLine found).1.Agrees (· ∈ (moves.foldl State.setLine found).2) ∧
      Same found.1 (moves.foldl State.setLine found).1 ∧
      ∀ line, line ∈ (moves.foldl State.setLine found).2 ↔
        line ∈ found.2 ∨ ∃ from_ ∈ moves, found.1.moved from_ = some line := by
  induction moves generalizing found with
  | nil => exact ⟨agrees, ⟨rfl, rfl⟩, by simp⟩
  | cons first moves induction =>
      obtain ⟨turn, same, listed⟩ := setLine_agrees agrees first
      obtain ⟨rest, same', listed'⟩ := induction turn
      rw [List.foldl_cons]
      refine ⟨rest, ⟨same'.path.trans same.path, same'.safePoints.trans same.safePoints⟩, ?_⟩
      intro line
      rw [listed', listed, same.moved, List.exists_mem_cons_iff, or_assoc]

end Script

/-! ### Agreement -/

namespace State

/-- `v_break_points` lists the line for the path. -/
def Listed (state : State) (path : String) (line : Nat) : Prop :=
  ∃ lines, Keyed.find path state.breakPoints = some lines ∧ line ∈ lines

/-- In every script the break points are the first safe points of the lines listed. -/
def Agrees (state : State) : Prop :=
  ∀ (number : Nat) (script : Script), state.scripts[number]? = some script →
    script.Agrees (state.Listed script.path)

def enters (state : State) (path : String) (line : Nat) : Option Nat :=
  match state.findModule path with
  | none => some line
  | some number => (state.scripts[number]?).bind fun script => script.moved line

/-- What keeps the agreement: a script that is loaded leaves the lines of the others of its
path; a line is entered that is listed already, or where no other script of the path than
the one that is found has a safe point; a line that is listed is reset where no other
script of the path has a safe point, and where the first is in the first column. -/
def Meets (state : State) : Event → Prop
  | .load path codes => ∀ (number : Nat) (script : Script),
      state.scripts[number]? = some script → script.path = path → ∀ line, script.Has line →
        (state.Listed path line ↔
          ∃ from_, state.Listed path from_ ∧ (codes.load path).moved from_ = some line)
  | .instantiate _ _ => True
  | .finalize _ => True
  | .set path line => 0 < line → ∀ entered, state.enters path line = some entered →
      ¬state.Listed path entered → ∀ (number : Nat) (script : Script),
        state.scripts[number]? = some script → script.path = path → script.Has entered →
          state.findModule path = some number
  | .reset path line => 0 < line → state.Listed path line → ∀ (number : Nat) (script : Script),
      state.scripts[number]? = some script → script.path = path → script.Has line →
        state.findModule path = some number ∧ script.Leads line

variable {state : State} {path other : String} {line : Nat}

theorem listed_insert {line' : Nat} : (state.insert path line).Listed other line' ↔
    other = path ∧ line' = line ∨ state.Listed other line' := by
  unfold insert Listed
  split
  · rename_i absent
    dsimp only
    rw [Keyed.find_emplace state.orderedBreakPoints absent]
    by_cases same : other = path
    · subst same
      simp [absent]
    · simp [same]
  · rename_i lines found
    dsimp only
    rw [Keyed.find_assign]
    by_cases same : other = path
    · subst same
      simp [found]
    · simp [same]

theorem listed_assign {lines found : Finset Nat} {line' : Nat}
    (is : Keyed.find path state.breakPoints = some found) :
    (state.assign path lines).Listed other line' ↔
      if other = path then line' ∈ lines else state.Listed other line' := by
  unfold assign Listed
  split
  · rename_i empty
    dsimp only
    rw [Keyed.find_erase]
    by_cases same : other = path
    · simp [same, empty]
    · simp [same]
  · dsimp only
    rw [Keyed.find_assign]
    by_cases same : other = path
    · subst same
      simp [is]
    · simp [same]

theorem findModule_some {number : Nat} (found : state.findModule path = some number) :
    ∃ script, state.scripts[number]? = some script ∧ script.path = path := by
  obtain ⟨⟨name, body⟩, _, is⟩ := List.exists_of_findSome?_eq_some found
  obtain ⟨other, _, is⟩ := Option.bind_eq_some_iff.mp is
  obtain ⟨script, at_, is⟩ := Option.bind_eq_some_iff.mp is
  split at is
  · rename_i same
    cases is
    exact ⟨script, at_, same⟩
  · cases is

@[simp] theorem insert_scripts : (state.insert path line).scripts = state.scripts := by
  unfold insert
  split <;> rfl

@[simp] theorem assign_scripts {lines : Finset Nat} :
    (state.assign path lines).scripts = state.scripts := by
  unfold assign
  split <;> rfl

/-- Where the scripts are left, the agreement is kept if and only if the lines with safe
points are listed as before. -/
theorem agrees_lines {after : State} (agrees : state.Agrees)
    (same : after.scripts = state.scripts) :
    after.Agrees ↔ ∀ (number : Nat) (script : Script), state.scripts[number]? = some script →
      ∀ line, script.Has line →
        (state.Listed script.path line ↔ after.Listed script.path line) := by
  unfold Agrees
  rw [same]
  apply forall_congr'
  intro number
  apply forall_congr'
  intro script
  apply forall_congr'
  intro at_
  exact (agrees number script at_).congr

/-- Where one script is changed, the agreement is kept if and only if it is with the others
and with that one. -/
theorem agrees_put {after : State} {number : Nat} {script changed : Script}
    (agrees : state.Agrees) (at_ : state.scripts[number]? = some script)
    (put : after.scripts = state.scripts.set number changed) :
    after.Agrees ↔ changed.Agrees (after.Listed changed.path) ∧
      ∀ (other : Nat) (script : Script), other ≠ number → state.scripts[other]? = some script →
        ∀ line, script.Has line →
          (state.Listed script.path line ↔ after.Listed script.path line) := by
  obtain ⟨short, _⟩ := List.getElem?_eq_some_iff.mp at_
  unfold Agrees
  rw [put]
  constructor
  · intro agrees'
    refine ⟨agrees' number changed (List.getElem?_set_self short), ?_⟩
    intro other script apart at_
    refine (agrees other script at_).congr.mp (agrees' other script ?_)
    rw [List.getElem?_set_ne apart.symm, at_]
  · intro ⟨here, others⟩ other script at_
    by_cases same : other = number
    · rw [same, List.getElem?_set_self short] at at_
      cases at_
      exact here
    · rw [List.getElem?_set_ne (Ne.symm same)] at at_
      exact (agrees other script at_).congr.mpr (others other script same at_)

/-- Where a line is entered, the scripts that see it listed now are those of the path that have
a safe point in it. -/
theorem entered_iff {after : State} {entered : Nat} {among : Nat → Prop}
    (listed : ∀ {other : String} {line : Nat}, after.Listed other line ↔
      other = path ∧ line = entered ∨ state.Listed other line) :
    (∀ (number : Nat) (script : Script), among number → state.scripts[number]? = some script →
      ∀ line, script.Has line →
        (state.Listed script.path line ↔ after.Listed script.path line)) ↔
    (¬state.Listed path entered → ∀ (number : Nat) (script : Script),
      state.scripts[number]? = some script → script.path = path → script.Has entered →
        ¬among number) := by
  simp only [listed, iff_or_self]
  constructor
  · intro same unlisted number script at_ here has inside
    exact unlisted (here ▸ same number script inside at_ entered has ⟨here, rfl⟩)
  · intro others number script inside at_ line has ⟨here, same⟩
    by_contra unlisted
    subst same
    rw [here] at unlisted
    exact others unlisted number script at_ here has inside

/-- Where a line is erased, the scripts that do not see it listed any more are those of the path
that have a safe point in it. -/
theorem erased_iff {after : State} {lines : Finset Nat} {among : Nat → Prop}
    (before : ∀ line, state.Listed path line ↔ line ∈ lines)
    (listed : ∀ {other : String} {line' : Nat}, after.Listed other line' ↔
      if other = path then line' ∈ lines.erase line else state.Listed other line') :
    (∀ (number : Nat) (script : Script), among number → state.scripts[number]? = some script →
      ∀ line, script.Has line →
        (state.Listed script.path line ↔ after.Listed script.path line)) ↔
    (state.Listed path line → ∀ (number : Nat) (script : Script),
      state.scripts[number]? = some script → script.path = path → script.Has line →
        ¬among number) := by
  constructor
  · intro same present number script at_ here has inside
    have now := (same number script inside at_ line has).mp (here ▸ present)
    rw [listed, if_pos here] at now
    exact absurd rfl (Finset.mem_erase.mp now).1
  · intro others number script inside at_ line' has
    rw [listed]
    split
    · rename_i here
      rw [here, before, Finset.mem_erase, iff_and_self]
      intro present same
      subst same
      exact others ((before line').mpr present) number script at_ here has inside
    · exact Iff.rfl

theorem set_agrees_iff (agrees : state.Agrees) (positive : 0 < line) :
    (state.setBreakPoint path line).Agrees ↔ state.Meets (.set path line) := by
  unfold setBreakPoint
  cases found : state.findModule path with
  | none =>
      have enters : state.enters path line = some line := by
        unfold State.enters
        rw [found]
      have all : (∀ (number : Nat) (script : Script), True → state.scripts[number]? = some script →
          ∀ line', script.Has line' → (state.Listed script.path line' ↔
            (state.insert path line).Listed script.path line')) ↔ _ := entered_iff listed_insert
      simp only [true_implies, not_true_eq_false] at all
      dsimp only
      rw [agrees_lines agrees insert_scripts, all]
      constructor
      · intro none_ _ entered is unlisted number script at_ here has
        rw [enters] at is
        cases is
        exact absurd (none_ unlisted number script at_ here has) not_false
      · intro meets unlisted number script at_ here has
        have finds := meets positive _ enters unlisted number script at_ here has
        rw [found] at finds
        cases finds
  | some number =>
      obtain ⟨script, at_, here⟩ := findModule_some found
      have enters : state.enters path line = script.moved line := by
        unfold State.enters
        rw [found]
        dsimp only
        rw [at_, Option.bind_some]
      dsimp only
      rw [at_]
      dsimp only
      cases is : script.from_ line with
      | none =>
          rw [Script.set_none is]
          dsimp only
          rw [if_pos le_rfl]
          refine iff_of_true ?_ ?_
          · refine (agrees_put agrees at_ (show _ = state.scripts.set number script from rfl)).mpr
              ⟨agrees number script at_, ?_⟩
            exact fun _ _ _ _ _ _ => Iff.rfl
          · intro _ entered moves
            rw [enters, Script.moved, is] at moves
            cases moves
      | some entry =>
          have positive' : ¬entry.line ≤ 0 :=
            not_le.mpr (script.positive entry (Script.mem_from is))
          have moves : state.enters path line = some entry.line := by
            rw [enters, Script.moved, is]
            rfl
          rw [Script.set_line is, if_neg positive']
          have same : Script.Same script (script.setBreakPoint line 0).2 := Script.set_same
          have listed {other : String} {line' : Nat} :
              ((state.put number (script.setBreakPoint line 0).2).insert path entry.line).Listed
                other line' ↔ other = path ∧ line' = entry.line ∨ state.Listed other line' :=
            listed_insert
          rw [agrees_put agrees at_ insert_scripts, and_iff_right, entered_iff listed]
          · constructor
            · intro others _ entered enters' unlisted other script' at' here' has
              rw [moves] at enters'
              cases enters'
              rw [found, not_not.mp (others unlisted other script' at' here' has)]
            · intro meets unlisted other script' at' here' has apart
              have finds := meets positive _ moves unlisted other script' at' here' has
              rw [found] at finds
              exact apart (Option.some.inj finds).symm
          · have set_ := Script.set_agrees (agrees number script at_) is
            intro address
            rw [set_ address]
            apply exists_congr
            intro line'
            rw [listed, same.path, here, and_iff_right rfl]

theorem reset_agrees_iff (agrees : state.Agrees) (positive : 0 < line) :
    (state.resetBreakPoint path line).Agrees ↔ state.Meets (.reset path line) := by
  unfold resetBreakPoint
  cases is : Keyed.find path state.breakPoints with
  | none =>
      refine iff_of_true agrees fun _ ⟨lines, found, _⟩ => ?_
      rw [is] at found
      cases found
  | some lines =>
      have before (line' : Nat) : state.Listed path line' ↔ line' ∈ lines := by
        unfold Listed
        rw [is]
        simp
      dsimp only
      cases found : state.findModule path with
      | none =>
          have all : (∀ (number : Nat) (script : Script), True →
              state.scripts[number]? = some script → ∀ line', script.Has line' →
                (state.Listed script.path line' ↔
                  (state.assign path (lines.erase line)).Listed script.path line')) ↔ _ :=
            erased_iff before (listed_assign is)
          simp only [true_implies, not_true_eq_false] at all
          dsimp only
          rw [agrees_lines agrees assign_scripts, all]
          constructor
          · intro none_ _ present number script at_ here has
            exact absurd (none_ present number script at_ here has) not_false
          · intro meets present number script at_ here has
            have finds := (meets positive present number script at_ here has).1
            rw [found] at finds
            cases finds
      | some number =>
          obtain ⟨script, at_, here⟩ := findModule_some found
          dsimp only
          rw [at_]
          dsimp only
          have erased : (if 0 < (script.resetBreakPoint line 1).1.1 then
              (lines.erase line).erase (script.resetBreakPoint line 1).1.1
                else lines.erase line) = lines.erase line := by
            split
            · rename_i some_
              rw [(script.reset_line line).resolve_left (Nat.ne_of_gt some_), Finset.erase_idem]
            · rfl
          have same : Script.Same script (script.resetBreakPoint line 1).2 := Script.reset_same
          have listed {other : String} {line' : Nat} :
              ((state.put number (script.resetBreakPoint line 1).2).assign path
                (lines.erase line)).Listed other line' ↔
                if other = path then line' ∈ lines.erase line else state.Listed other line' :=
            listed_assign is
          have here_ : ∀ line', ((state.put number (script.resetBreakPoint line 1).2).assign path
              (lines.erase line)).Listed (script.resetBreakPoint line 1).2.path line' ↔
                line' ≠ line ∧ state.Listed script.path line' := by
            intro line'
            rw [listed, same.path, if_pos here, here, before, Finset.mem_erase]
          have reset := Script.reset_agrees (agrees number script at_) line
          rw [erased, agrees_put agrees at_ assign_scripts, erased_iff before listed]
          simp only [Script.Agrees, here_] at reset ⊢
          rw [reset]
          constructor
          · intro ⟨leads, others⟩ _ present other script' at' here' has
            have equal := not_not.mp (others present other script' at' here' has)
            subst equal
            rw [at_] at at'
            cases at'
            exact ⟨found, leads (here ▸ present) has⟩
          · intro meets
            refine ⟨fun present has => ?_, fun present other script' at' here' has apart => ?_⟩
            · exact (meets positive (here ▸ present) number script at_ here has).2
            · have finds := (meets positive present other script' at' here' has).1
              rw [found] at finds
              exact apart (Option.some.inj finds).symm

theorem load_code (codes : Codes) (path : String) (address : Nat) :
    (codes.load path).code address ≠ .breakPoint := by
  change (if _ then Instruction.safePoint else .other) ≠ _
  split <;> exact Instruction.noConfusion

/-- Where a script is added, the agreement is kept if and only if it is with the others and
with that one. -/
theorem agrees_append {after : State} {added : Script} (agrees : state.Agrees)
    (append : after.scripts = state.scripts ++ [added]) :
    after.Agrees ↔ added.Agrees (after.Listed added.path) ∧
      ∀ (number : Nat) (script : Script), state.scripts[number]? = some script →
        ∀ line, script.Has line →
          (state.Listed script.path line ↔ after.Listed script.path line) := by
  unfold Agrees
  rw [append]
  constructor
  · intro agrees'
    refine ⟨agrees' _ added List.getElem?_concat_length, fun number script at_ => ?_⟩
    refine (agrees number script at_).congr.mp (agrees' number script ?_)
    rw [List.getElem?_append_left (List.getElem?_eq_some_iff.mp at_).1, at_]
  · intro ⟨here, others⟩ number script at_
    rw [List.getElem?_append] at at_
    split at at_
    · exact (agrees number script at_).congr.mpr (others number script at_)
    · have same : script = added := List.mem_singleton.mp (List.mem_of_getElem? at_)
      rw [same]
      exact here

theorem load_agrees_iff (agrees : state.Agrees) (codes : Codes) :
    (state.setBreakPoints (codes.load path)).Agrees ↔ state.Meets (.load path codes) := by
  have fresh : (codes.load path).Agrees fun _ => False := by
    intro address
    exact iff_of_false (load_code codes path address) fun ⟨_, listed, _⟩ => listed
  have path_ : (codes.load path).path = path := rfl
  unfold setBreakPoints
  rw [path_]
  cases is : Keyed.find path state.breakPoints with
  | none =>
      have unlisted (line : Nat) : ¬state.Listed path line := by
        intro ⟨lines, found, _⟩
        rw [is] at found
        cases found
      dsimp only
      rw [agrees_append agrees rfl]
      refine iff_of_true ⟨?_, fun _ _ _ _ _ => Iff.rfl⟩ ?_
      · refine fresh.congr.mpr fun line _ => ?_
        exact iff_of_false id (unlisted line)
      · intro number script at_ here line has
        exact iff_of_false (unlisted line) fun ⟨from_, listed, _⟩ => unlisted from_ listed
  | some lines =>
      have listed_ {line : Nat} : state.Listed path line ↔ line ∈ lines := by
        unfold Listed
        rw [is]
        simp
      have empty : Script.Agrees (codes.load path, (∅ : Finset Nat)).1
          (· ∈ (codes.load path, (∅ : Finset Nat)).2) := by
        refine fresh.congr.mpr fun line _ => ?_
        exact iff_of_false id (Finset.notMem_empty line)
      obtain ⟨placed, same, moves⟩ := Script.setLines_agrees (lines.sort (· ≤ ·)) empty
      dsimp only
      generalize (lines.sort (· ≤ ·)).foldl setLine (codes.load path, ∅) = result at *
      have here : result.1.path = path := same.path
      have moved (line : Nat) : line ∈ result.2 ↔
          ∃ from_, state.Listed path from_ ∧ (codes.load path).moved from_ = some line := by
        rw [moves]
        simp only [Finset.notMem_empty, false_or, Finset.mem_sort, listed_]
      have listed {other : String} {line : Nat} :
          ({ state with scripts := state.scripts ++ [result.1] }.assign result.1.path
            result.2).Listed other line ↔
              if other = path then line ∈ result.2 else state.Listed other line := by
        rw [here]
        exact listed_assign is
      rw [agrees_append agrees assign_scripts, and_iff_right]
      · constructor
        · intro others number script at_ here' line has
          have kept := others number script at_ line has
          rw [listed, if_pos here', here', moved] at kept
          exact kept
        · intro meets number script at_ line has
          rw [listed]
          split
          · rename_i here'
            rw [here', moved]
            exact meets number script at_ here' line has
          · exact Iff.rfl
      · intro address
        rw [placed address]
        apply exists_congr
        intro line
        rw [listed, if_pos here]

theorem step_agrees_iff (agrees : state.Agrees) (event : Event) :
    (state.step event).Agrees ↔ state.Meets event := by
  cases event with
  | load path codes => exact load_agrees_iff agrees codes
  | instantiate name body => exact iff_of_true agrees trivial
  | finalize name => exact iff_of_true agrees trivial
  | set path line =>
      rw [step]
      by_cases positive : 0 < line
      · rw [if_pos positive]
        exact set_agrees_iff agrees positive
      · rw [if_neg positive]
        exact iff_of_true agrees fun above => absurd above positive
  | reset path line =>
      rw [step]
      by_cases positive : 0 < line
      · rw [if_pos positive]
        exact reset_agrees_iff agrees positive
      · rw [if_neg positive]
        exact iff_of_true agrees fun above => absurd above positive

theorem start_agrees : start.Agrees := fun _ _ at_ => by
  cases at_

inductive Run : State → Prop
  | start : Run start
  | step {state : State} (run : Run state) (event : Event) (meets : state.Meets event) :
      Run (state.step event)

theorem agrees_of_run (run : Run state) : state.Agrees := by
  induction run with
  | start => exact start_agrees
  | step _ event meets induction => exact (step_agrees_iff induction event).mpr meets

theorem reset_restores (agrees : state.Agrees) (positive : 0 < line)
    (listed : state.Listed path line) (meets : state.Meets (.reset path line))
    {number address : Nat} {script : Script} (at_ : state.scripts[number]? = some script)
    (here : script.path = path) (first : script.First line address) :
    script.code address = .breakPoint ∧
      ∃ after, (state.step (.reset path line)).scripts[number]? = some after ∧
        after.code = Function.update script.code address .safePoint := by
  obtain ⟨found, leads⟩ := meets positive listed number script at_ here first.has
  obtain ⟨lines, is, _⟩ := id listed
  have short := (List.getElem?_eq_some_iff.mp at_).1
  rcases Script.reset_code (agrees number script at_) line with kept | cleared
  · exact absurd ⟨here ▸ listed, leads⟩ kept.2
  · obtain ⟨address', first', set_, code, _⟩ := cleared
    rw [first.unique first']
    refine ⟨set_, (script.resetBreakPoint line 1).2, ?_, code⟩
    rw [step, if_pos positive, resetBreakPoint, is]
    dsimp only
    rw [found]
    dsimp only
    rw [at_]
    dsimp only
    rw [assign_scripts]
    exact List.getElem?_set_self short

/-- In every state of a run whose steps meet the condition, an instruction is a break point
if and only if it is the first safe point of a line that is listed for its script, and
resetting such a line restores that instruction; and no step but those that meet the
condition keeps it so. -/
theorem break_points_agree (run : Run state) :
    (∀ (number : Nat) (script : Script), state.scripts[number]? = some script → ∀ address,
      script.code address = .breakPoint ↔
        ∃ line, state.Listed script.path line ∧ script.First line address) ∧
    (∀ path line, 0 < line → state.Listed path line → state.Meets (.reset path line) →
      ∀ (number : Nat) (script : Script) (address : Nat),
        state.scripts[number]? = some script → script.path = path → script.First line address →
          script.code address = .breakPoint ∧
            ∃ after, (state.step (.reset path line)).scripts[number]? = some after ∧
              after.code = Function.update script.code address .safePoint) ∧
    ∀ event, (state.step event).Agrees ↔ state.Meets event :=
  ⟨agrees_of_run run,
    fun _ _ positive listed meets _ _ _ at_ here first =>
      reset_restores (agrees_of_run run) positive listed meets at_ here first,
    step_agrees_iff (agrees_of_run run)⟩

def indented : Codes where
  codes := [⟨16, [some ⟨1, 1, by decide⟩, none, some ⟨2, 2, by decide⟩]⟩]
  apart := by simp

def loaded : State :=
  (start.step (.load "a.xm" indented)).step (.instantiate "a" (some 0))

theorem break_points_agree_first :
    (∀ (number : Nat) (script : Script),
      (loaded.step (.set "a.xm" 1)).scripts[number]? = some script → ∀ address,
        script.code address = .breakPoint ↔
          ∃ line, (loaded.step (.set "a.xm" 1)).Listed script.path line ∧
            script.First line address) ∧
    ∀ event, ((loaded.step (.set "a.xm" 1)).step event).Agrees ↔
      (loaded.step (.set "a.xm" 1)).Meets event := by
  have run : Run loaded :=
    .step (.step .start (.load "a.xm" indented) fun _ _ at_ => by cases at_)
      (.instantiate "a" (some 0)) trivial
  have agree := break_points_agree (run.step (.set "a.xm" 1)
    fun _ _ _ _ number script at_ _ _ => by
      have first : number = 0 := by
        have short := (List.getElem?_eq_some_iff.mp at_).1
        exact Nat.lt_one_iff.mp short
      rw [first]
      decide)
  exact ⟨agree.1, agree.2.2⟩

/-- `bs a.xm:2` and `br a.xm:2` leave the break point; and a break point is not set for a
script that is the body of no module. -/
theorem break_points_disagree :
    ¬((loaded.step (.set "a.xm" 2)).step (.reset "a.xm" 2)).Agrees ∧
      ¬((start.step (.load "a.xm" indented)).step (.set "a.xm" 1)).Agrees := by
  constructor
  · intro agrees
    obtain ⟨script, at_, left⟩ : ∃ script,
        ((loaded.step (.set "a.xm" 2)).step (.reset "a.xm" 2)).scripts[0]? = some script ∧
          script.code 18 = .breakPoint := ⟨_, rfl, by decide⟩
    have none_ : ((loaded.step (.set "a.xm" 2)).step (.reset "a.xm" 2)).breakPoints = [] := by
      decide
    obtain ⟨line, ⟨lines, found, _⟩, _⟩ := (agrees 0 script at_ 18).mp left
    rw [none_] at found
    cases found
  · intro agrees
    obtain ⟨script, at_, first, unset⟩ : ∃ script,
        ((start.step (.load "a.xm" indented)).step (.set "a.xm" 1)).scripts[0]? = some script ∧
          script.First 1 16 ∧ script.code 16 ≠ .breakPoint := by
      refine ⟨_, rfl, ?_, by decide⟩
      unfold Script.First
      decide
    have path : script.path = "a.xm" := by
      cases at_
      rfl
    refine unset ((agrees 0 script at_ 16).mpr ⟨1, ⟨{1}, ?_, by decide⟩, first⟩)
    rw [path]
    decide

end State

end Xemmai.BreakPoints
