import Xemmai.Positions

/-!
# Backtraces

An exception out of `f_loop` takes the program counter of the instruction with
it into the backtrace. An instruction that has an entry behind it is found by
every counter behind its opcode, since the entries before it end at its opcode.
`CATCH`, `LAMBDA` and `ADVANCED_LAMBDA` have none, and a form that is not supported
leaves with the counter at its opcode.
-/

namespace Xemmai

set_option autoImplicit false

section Lookup

variable {ats more : List AtAddress} {address : Nat} {entry : AtAddress}

theorem findAt_append (found : findAt ats address = some entry) :
    findAt (ats ++ more) address = some entry := by
  unfold findAt at found ⊢
  rw [List.find?_append, found]
  rfl

theorem findAt_skip (before : ∀ entry ∈ ats, entry.address < address) :
    findAt (ats ++ more) address = findAt more address := by
  unfold findAt
  have none_ : ats.find? (fun entry => !decide (entry.address < address)) = none := by
    rw [List.find?_eq_none]
    intro entry member
    simp [before entry member]
  rw [List.find?_append, none_]
  rfl

theorem findAt_cons (reaches : address ≤ entry.address) :
    findAt (entry :: more) address = some entry := by
  unfold findAt
  rw [List.find?_cons_of_pos]
  simp [reaches]

theorem findAt_gap {width : Nat}
    (gap : ∀ entry ∈ ats, entry.address < address ∨ address + width ≤ entry.address) :
    findAt ats address = findAt ats (address + width) := by
  induction ats with
  | nil => rfl
  | cons first rest induction =>
    have rest := induction fun entry member => gap entry (List.mem_cons_of_mem _ member)
    rcases gap first (List.mem_cons_self ..) with before | behind
    · have short : decide (first.address < address + width) = true :=
        decide_eq_true (Nat.lt_add_right width before)
      have near : decide (first.address < address) = true := decide_eq_true before
      simp only [findAt, List.find?_cons, short, near, Bool.not_true] at rest ⊢
      exact rest
    · rw [findAt_cons behind, findAt_cons (Nat.le_of_add_right_le behind)]

theorem findAt_range (at_ : Nat → At) (first : Nat) {index count : Nat} (inside : index < count) :
    findAt ((List.range count).map (fun index => ⟨at_ index, first + index⟩) ++ more)
      (first + index) = some ⟨at_ index, first + index⟩ := by
  obtain ⟨rest, rfl⟩ := Nat.exists_eq_add_of_lt inside
  rw [Nat.add_assoc, List.range_add, List.map_append, List.append_assoc, findAt_skip]
  · rw [List.range_succ_eq_map]
    exact findAt_cons (Nat.le_refl _)
  · intro entry member
    obtain ⟨other, before, rfl⟩ := List.mem_map.mp member
    exact Nat.add_lt_add_left (List.mem_range.mp before) first

end Lookup

namespace Instr

variable {F O : Type}

/-- Whether `f_emit` makes an entry behind an instruction that can throw. -/
def isMarked : Instr F O → Bool
  | .catch_ _ _ _ => false
  | .operate action _ _ _ => !action.isLambda
  | _ => true

/-- An instruction that needs no entry or has none. -/
def Silent (instruction : Instr F O) : Prop :=
  instruction.isMarked = true → ∀ stage, instruction.counter stage = none

theorem counter_last {instruction : Instr F O} {offset : Nat}
    (counted : instruction.counter .last = some offset) : offset = instruction.width := by
  simp only [Instr.counter] at counted
  split at counted <;> cases counted
  rfl

theorem counter_expanding {instruction : Instr F O} {index offset : Nat}
    (counted : instruction.counter (.expanding index) = some offset) :
    index < instruction.expansions ∧ offset = instruction.header + index := by
  simp only [Instr.counter] at counted
  split at counted
  case isTrue inside => exact ⟨inside, (Option.some.inj counted).symm⟩
  case isFalse => cases counted

theorem counter_checking {instruction : Instr F O} (marked : instruction.isMarked = true) :
    instruction.counter .checking = none := by
  cases instruction with
  | catch_ => cases marked
  | _ => rfl

theorem unsupported_counter {instruction : Instr F O}
    (unsupported : instruction.isUnsupported = true) :
    instruction.isMarked = true ∧ instruction.counter .last = some instruction.width := by
  cases instruction with
  | binary => exact ⟨rfl, rfl⟩
  | _ => cases unsupported

theorem Silent.supported {instruction : Instr F O} (silent : instruction.Silent) :
    instruction.isUnsupported = false := by
  by_contra unsupported
  obtain ⟨marked, counted⟩ := unsupported_counter (Bool.not_eq_false _ ▸ unsupported)
  rw [silent marked] at counted
  cases counted

theorem width_pos (instruction : Instr F O) : 0 < instruction.width := by
  cases instruction with
  | operate action => cases action <;> exact Nat.succ_pos _
  | bind binding => cases binding <;> exact Nat.succ_pos _
  | scopeGet stack outer index =>
    rw [width]
    split <;> exact Nat.succ_pos _
  | scopePut stack outer index =>
    rw [width]
    split <;> exact Nat.succ_pos _
  | _ => simp [width]

theorem header_lt_width {instruction : Instr F O} (inside : 0 < instruction.expansions) :
    0 < instruction.header ∧ instruction.header + instruction.expansions < instruction.width := by
  cases instruction with
  | call callee tail stack count expands =>
    cases expands with
    | nil => cases inside
    | cons first rest => simp [width, expansions, header]
  | _ => cases inside

theorem resolve_marked (target : Nat → Nat) (instruction : Instr F O) :
    (instruction.resolve target).isMarked = instruction.isMarked := by
  cases instruction <;> rfl

theorem resolve_unsupported (target : Nat → Nat) (instruction : Instr F O) :
    (instruction.resolve target).isUnsupported = instruction.isUnsupported := by
  cases instruction <;> rfl

theorem resolve_counter (target : Nat → Nat) (instruction : Instr F O) (stage : Stage) :
    (instruction.resolve target).counter stage = instruction.counter stage := by
  cases instruction <;> cases stage <;> rfl

theorem resolve_recorded (target : Nat → Nat) (instruction : Instr F O) (stage : Stage) :
    (instruction.resolve target).recorded stage = instruction.recorded stage := by
  rw [recorded, recorded, resolve_unsupported, resolve_counter]

end Instr

namespace Emit

variable {F O : Type} {before after : Emit F O}

/-- A part of an emission that writes silent instructions only. -/
def Silently (before after : Emit F O) : Prop :=
  ∃ written, after.code = before.code ++ written ∧ ∀ instruction ∈ written, instruction.Silent

theorem Silently.refl (before : Emit F O) : Silently before before :=
  ⟨[], (List.append_nil _).symm, List.forall_mem_nil _⟩

theorem Silently.append (silently : Silently before after) {more : List (Instr F O)}
    (silent : ∀ instruction ∈ more, instruction.Silent) :
    Silently before { after with code := after.code ++ more } := by
  obtain ⟨written, same, all⟩ := silently
  refine ⟨written ++ more, ?_, ?_⟩
  · rw [same, List.append_assoc]
  · intro instruction member
    rcases List.mem_append.mp member with earlier | later
    · exact all instruction earlier
    · exact silent instruction later

theorem Silently.emit (silently : Silently before after) {instruction : Instr F O}
    (silent : instruction.Silent) : Silently before (after.emit instruction) := by
  apply silently.append
  intro other member
  rw [List.mem_singleton.mp member]
  exact silent

theorem silent_of_unmarked {instruction : Instr F O} (unmarked : instruction.isMarked = false) :
    instruction.Silent := fun marked => by rw [unmarked] at marked; cases marked

theorem Silently.join (silently : Silently before after) (layout : Layout) (junction : Block) :
    Silently before (after.join layout junction) := by
  apply silently.append
  intro instruction member
  obtain ⟨slot, _, rfl⟩ := List.mem_map.mp member
  intro _ stage
  cases stage <;> rfl

theorem Silently.emitNull (silently : Silently before after) : Silently before after.emitNull :=
  silently.emit fun _ stage => by cases stage <;> rfl

theorem Silently.jump (silently : Silently before after) (label : Nat) (exposed : List Nat) :
    Silently before (after.emit (.jump label exposed)) :=
  silently.emit fun _ stage => by cases stage <;> rfl

theorem Silently.setTarget (silently : Silently before after) (label : Nat) :
    Silently before (after.setTarget label) := silently

theorem Silently.finally_ (silently : Silently before after) (leave : Leave) :
    Silently before (after.emit (.finally_ leave)) :=
  silently.emit fun _ stage => by cases stage <;> rfl

theorem Silently.pushUnless (silently : Silently before after) (clear : Bool) :
    Silently before (after.pushUnless clear) := by
  cases clear <;> exact silently

theorem Silently.popIf (silently : Silently before after) (clear : Bool) :
    Silently before (after.popIf clear) := by
  cases clear <;> exact silently

theorem finish_code (instruction : Instr F O) (clear : Bool) (state : Emit F O) :
    (state.finish instruction clear).code = state.code ++ [instruction] := by
  cases clear <;> rfl

theorem Silently.finish (silently : Silently before after) {instruction : Instr F O}
    (silent : instruction.Silent) (clear : Bool) :
    Silently before (after.finish instruction clear) := by
  cases clear <;> exact silently.emit silent

theorem Silently.known (silently : Silently before after) (slot : Nat) :
    Silently before (after.known slot) := by
  unfold Emit.known
  split
  · exact silently
  · exact silently.emit fun _ stage => by cases stage <;> rfl

theorem Silently.assign (silently : Silently before after) (slot : Option Nat) :
    Silently before (after.assign slot) := by
  cases slot <;> exact silently

theorem Silently.operand (silently : Silently before after) (outer : Option Nat)
    (needed : Bool) : Silently before (after.operand outer needed).2.2 := by
  cases outer <;> cases needed <;> exact silently

theorem Silently.rejoin (silently : Silently before after) (layout : Layout)
    (own outer : Option Nat) (junction : Block) (height stack : Nat) :
    Silently before (after.rejoin layout own outer junction height stack) := by
  unfold Emit.rejoin
  split
  · rename_i label0 label1
    apply Silently.jump
    apply Silently.join
    split
    · exact Silently.emit silently fun _ stage => by cases stage <;> rfl
    · exact silently
  · exact silently

/-- The end of `t_try::f_emit`, from `YRT` on. -/
theorem Silently.close (silently : Silently before after) (layout : Layout)
    (break_ continue_ return_ : Option Nat × Option Nat)
    (own : Option Nat × Option Nat × Option Nat) (junction : Block × Block × Block)
    (height : Nat × Nat) (stack : Nat) :
    Silently before
      (let emit := after.emit (.yrt break_.1 continue_.1 return_.1)
      let stepped := own.1.isSome || own.2.1.isSome || own.2.2.isSome
      let step := emit.labels
      let emit := if stepped then emit.label.emit (.jump step []) else emit
      let emit := emit.rejoin layout own.1 break_.2 junction.1 height.1 stack
      let emit := emit.rejoin layout own.2.1 continue_.2 junction.2.1 stack stack
      let emit := emit.rejoin layout own.2.2 return_.2 junction.2.2 height.2 stack
      if stepped then emit.setTarget step else emit) := by
  have returned : Silently before (after.emit (.yrt break_.1 continue_.1 return_.1)) :=
    silently.emit fun _ stage => by cases stage <;> rfl
  dsimp only
  cases own.1.isSome || own.2.1.isSome || own.2.2.isSome with
  | true =>
    apply Silently.setTarget
    apply Silently.rejoin
    apply Silently.rejoin
    apply Silently.rejoin
    exact returned.jump _ _
  | false =>
    apply Silently.rejoin
    apply Silently.rejoin
    apply Silently.rejoin
    exact returned

end Emit

namespace Positioned

variable {F O : Type} {ats : Ats} {debugging : Bool} {state : Positioned F O}

theorem mem_sitesFrom {origin : Origin} {written : List (Instr F O)} {start : Nat}
    {site : Site F O} (member : site ∈ sitesFrom origin start written) :
    site.instruction ∈ written ∧ site.origin = origin := by
  induction written generalizing start with
  | nil => cases member
  | cons instruction written ih =>
    rcases List.mem_cons.mp member with rfl | later
    · exact ⟨List.mem_cons_self .., rfl⟩
    · exact ⟨List.mem_cons_of_mem _ (ih later).1, (ih later).2⟩

theorem sitesFrom_instructions (origin : Origin) (start : Nat) (written : List (Instr F O)) :
    (sitesFrom origin start written).map Site.instruction = written := by
  induction written generalizing start with
  | nil => rfl
  | cons instruction written ih => exact congrArg _ (ih _)

/-- An error at a site is found where it belongs by the counter behind the opcode. -/
def Finds (ats : Ats) (entries : List AtAddress) (site : Site F O) : Prop :=
  ∀ stage offset, site.instruction.counter stage = some offset →
    ∃ entry, findAt entries (site.start + offset) = some entry ∧
      site.origin.Gives ats entry.toAt stage

/-- What holds of the code that has been written. -/
structure Good (ats : Ats) (debugging : Bool) (state : Positioned F O) : Prop where
  bounded : ∀ entry ∈ state.ats, entry.address ≤ state.last
  ascending : state.ats.Pairwise fun first second => first.address ≤ second.address
  instructions : state.sites.map Site.instruction = state.emit.code
  found : ∀ site ∈ state.sites, site.instruction.isMarked = true → Finds ats state.ats site
  -- A form that is not supported has the entry of its safe point at its opcode.
  pointed : debugging = true → ∀ site ∈ state.sites, site.instruction.isUnsupported = true →
    ∃ entry, findAt state.ats site.start = some entry ∧ site.origin.Gives ats entry.toAt .last

theorem Finds.append {entries : List AtAddress} {site : Site F O}
    (finds : Finds ats entries site) (more : List AtAddress) :
    Finds ats (entries ++ more) site := by
  intro stage offset counted
  obtain ⟨entry, found, gives⟩ := finds stage offset counted
  exact ⟨entry, findAt_append found, gives⟩

theorem write_eq {origin : Origin} {part : Emit F O → Emit F O} {written : List (Instr F O)}
    (same : (part state.emit).code = state.emit.code ++ written) :
    state.write origin part =
      { state with
        emit := part state.emit
        last := state.last + (written.map Instr.width).sum
        sites := state.sites ++ sitesFrom origin state.last written } := by
  simp only [write, same, List.drop_left]

theorem Good.write (good : state.Good ats debugging) (origin : Origin) {part : Emit F O → Emit F O}
    (silently : state.emit.Silently (part state.emit)) : (state.write origin part).Good ats debugging := by
  obtain ⟨written, same, silent⟩ := silently
  rw [write_eq same]
  refine ⟨?_, good.ascending, ?_, ?_, ?_⟩
  · intro entry member
    exact Nat.le_add_right_of_le (good.bounded entry member)
  · rw [List.map_append, sitesFrom_instructions, good.instructions, same]
  · intro site member marked
    rcases List.mem_append.mp member with earlier | later
    · exact good.found site earlier marked
    · intro stage offset counted
      rw [silent site.instruction (mem_sitesFrom later).1 marked stage] at counted
      cases counted
  · intro debugs site member unsupported
    rcases List.mem_append.mp member with earlier | later
    · exact good.pointed debugs site earlier unsupported
    · rw [(silent site.instruction (mem_sitesFrom later).1).supported] at unsupported
      cases unsupported

theorem Good.change (good : state.Good ats debugging) {part : Emit F O → Emit F O}
    (silently : state.emit.Silently (part state.emit)) : (state.change part).Good ats debugging :=
  good.write .none silently

theorem ascending_append {entries more : List AtAddress} {last : Nat}
    (ascending : entries.Pairwise fun first second => first.address ≤ second.address)
    (bounded : ∀ entry ∈ entries, entry.address ≤ last)
    (further : more.Pairwise fun first second => first.address ≤ second.address)
    (after : ∀ entry ∈ more, last ≤ entry.address) :
    (entries ++ more).Pairwise fun first second => first.address ≤ second.address := by
  rw [List.pairwise_append]
  exact ⟨ascending, further, fun first member second other =>
    Nat.le_trans (bounded first member) (after second other)⟩

theorem Good.safePoint (good : state.Good ats debugging) (safe : Bool) (number : Nat) :
    (state.safePoint ats safe number).Good ats debugging := by
  cases safe with
  | false => exact good
  | true =>
    refine ⟨?_, ?_, good.instructions, ?_, ?_⟩
    · intro entry member
      rcases List.mem_append.mp member with earlier | later
      · exact Nat.le_succ_of_le (good.bounded entry earlier)
      · rw [List.mem_singleton.mp later]
        exact Nat.le_refl _
    · apply ascending_append good.ascending good.bounded (List.pairwise_singleton ..)
      intro entry member
      rw [List.mem_singleton.mp member]
      exact Nat.le_succ _
    · intro site member marked
      exact (good.found site member marked).append _
    · intro debugs site member unsupported
      obtain ⟨entry, found, gives⟩ := good.pointed debugs site member unsupported
      exact ⟨entry, findAt_append found, gives⟩

/-- The entries of the asterisks are inside the instruction, and its own is behind
it. -/
theorem Good.writeCall (good : state.Good ats debugging) (number : Nat) (callee : Callee)
    (expands : List Nat) {part : Emit F O → Emit F O} {instruction : Instr F O}
    (same : (part state.emit).code = state.emit.code ++ [instruction])
    (header : 0 < expands.length → instruction.header = 3 + callee.width)
    (expansions : instruction.expansions = expands.length)
    (pointed : debugging = true → instruction.isUnsupported = true →
      ∃ entry, findAt state.ats state.last = some entry ∧ entry.toAt = ats.node number) :
    (state.writeCall ats number callee expands part).Good ats debugging := by
  have inner : ∀ entry ∈ (List.range expands.length).map (fun index =>
      (⟨ats.asterisk number index, state.last + 3 + callee.width + index⟩ : AtAddress)),
      state.last < entry.address ∧ entry.address < state.last + instruction.width := by
    intro entry member
    obtain ⟨index, inside, rfl⟩ := List.mem_map.mp member
    have inside := List.mem_range.mp inside
    have some_ : 0 < expands.length := Nat.zero_lt_of_lt inside
    have within := (instruction.header_lt_width (expansions ▸ some_)).2
    rw [header some_, expansions] at within
    constructor <;> simp only <;> omega
  have positive := instruction.width_pos
  rw [Positioned.writeCall, write_eq same]
  simp only [enter, enterAsterisks, List.map_cons, List.map_nil, List.sum_cons, List.sum_nil,
    Nat.add_zero, sitesFrom]
  refine ⟨?_, ?_, ?_, ?_, ?_⟩
  · intro entry member
    rcases List.mem_append.mp member with earlier | own
    · rcases List.mem_append.mp earlier with earlier | inside
      · exact Nat.le_add_right_of_le (good.bounded entry earlier)
      · exact Nat.le_of_lt (inner entry inside).2
    · rw [List.mem_singleton.mp own]
  · rw [List.append_assoc]
    apply ascending_append good.ascending good.bounded
    · apply ascending_append _ (fun entry member => Nat.le_of_lt (inner entry member).2)
        (List.pairwise_singleton ..)
      · intro entry own
        rw [List.mem_singleton.mp own]
      · rw [List.pairwise_map]
        apply List.Pairwise.imp _ List.pairwise_lt_range
        intro first second before
        exact Nat.add_le_add_left (Nat.le_of_lt before) _
    · intro entry member
      rcases List.mem_append.mp member with inside | own
      · exact Nat.le_of_lt (inner entry inside).1
      · rw [List.mem_singleton.mp own]
        exact Nat.le_add_right ..
  · rw [List.map_append, List.map_cons, List.map_nil, good.instructions, same]
  · intro site member marked
    rcases List.mem_append.mp member with earlier | own
    · rw [List.append_assoc]
      exact (good.found site earlier marked).append _
    · rw [List.mem_singleton.mp own] at marked ⊢
      intro stage offset counted
      cases stage with
      | expanding index =>
        obtain ⟨inside, rfl⟩ := Instr.counter_expanding counted
        rw [expansions] at inside
        refine ⟨⟨ats.asterisk number index, state.last + 3 + callee.width + index⟩, ?_, rfl⟩
        have address : state.last + (instruction.header + index) =
            state.last + 3 + callee.width + index := by
          rw [header (Nat.zero_lt_of_lt inside)]
          omega
        rw [List.append_assoc]
        simp only [address]
        rw [findAt_skip, findAt_range _ _ inside]
        intro entry member
        have bounded := good.bounded entry member
        omega
      | checking =>
        rw [Instr.counter_checking marked] at counted
        cases counted
      | last =>
        obtain rfl := Instr.counter_last counted
        refine ⟨⟨ats.node number, state.last + instruction.width⟩, ?_, rfl⟩
        rw [findAt_skip]
        · exact findAt_cons (Nat.le_refl _)
        · intro entry member
          rcases List.mem_append.mp member with earlier | inside
          · have bounded := good.bounded entry earlier
            simp only
            omega
          · exact (inner entry inside).2
  · intro debugs site member unsupported
    rcases List.mem_append.mp member with earlier | own
    · obtain ⟨entry, found, gives⟩ := good.pointed debugs site earlier unsupported
      rw [List.append_assoc]
      exact ⟨entry, findAt_append found, gives⟩
    · rw [List.mem_singleton.mp own] at unsupported ⊢
      obtain ⟨entry, found, gives⟩ := pointed debugs unsupported
      rw [List.append_assoc]
      exact ⟨entry, findAt_append found, gives⟩

section Plain

variable (number : Nat) {part : Emit F O → Emit F O} {instruction : Instr F O}

theorem Good.writePointed (good : state.Good ats debugging)
    (same : (part state.emit).code = state.emit.code ++ [instruction])
    (plain : instruction.expansions = 0)
    (pointed : debugging = true → instruction.isUnsupported = true →
      ∃ entry, findAt state.ats state.last = some entry ∧ entry.toAt = ats.node number) :
    (state.writeAt ats number part).Good ats debugging := by
  have plainly : state.writeCall ats number .stack [] part = state.writeAt ats number part := by
    simp [Positioned.writeCall, Positioned.writeAt, enterAsterisks]
  rw [← plainly]
  exact good.writeCall number .stack [] same (fun some_ => absurd some_ (Nat.lt_irrefl 0)) plain
    pointed

theorem Good.writeAt (good : state.Good ats debugging)
    (same : (part state.emit).code = state.emit.code ++ [instruction])
    (plain : instruction.expansions = 0) (supported : instruction.isUnsupported = false) :
    (state.writeAt ats number part).Good ats debugging :=
  good.writePointed number same plain fun _ unsupported => by
    rw [supported] at unsupported
    cases unsupported

theorem Good.writeSafe (good : state.Good ats debugging) {prepare : Emit F O → Emit F O}
    (prepared : ∀ emit, (prepare emit).code = emit.code)
    (same : (part (prepare state.emit)).code = (prepare state.emit).code ++ [instruction])
    (plain : instruction.expansions = 0) :
    (((state.safePoint ats debugging number).change prepare).writeAt ats number part).Good ats
      debugging := by
  have silently : state.emit.Silently (prepare state.emit) :=
    ⟨[], by rw [prepared, List.append_nil], List.forall_mem_nil _⟩
  refine Good.writePointed number ((good.safePoint debugging number).change silently) same
    plain ?_
  rintro rfl unsupported
  have last : ((state.safePoint ats true number).change prepare).last = state.last + 1 := by
    simp [Positioned.change, Positioned.write, prepared, Positioned.safePoint]
  refine ⟨⟨ats.node number, state.last + 1⟩, ?_, rfl⟩
  rw [last]
  have entries : ((state.safePoint ats true number).change prepare).ats =
      state.ats ++ [⟨ats.node number, state.last + 1⟩] := rfl
  rw [entries, findAt_skip fun entry member => Nat.lt_succ_of_le (good.bounded entry member)]
  exact findAt_cons (Nat.le_refl _)

end Plain

/-- What holds of the result of an emission that has one. -/
def Yields {α : Type} (emission : Option α) (holds : α → Prop) : Prop :=
  match emission with
  | none => True
  | some result => holds result

theorem Yields.of_some {α : Type} {result : α} {holds : α → Prop} (given : holds result) :
    Yields (some result) holds := given

theorem Yields.bind {α β : Type} {first : Option α} {next : α → Option β} {before : α → Prop}
    {after : β → Prop} (holds : Yields first before)
    (rest : ∀ result, before result → Yields (next result) after) :
    Yields (first.bind next) after := by
  cases first with
  | none => trivial
  | some result => exact rest result holds

theorem Yields.bind_some {α β : Type} {result : α} {next : α → Option β} {after : β → Prop}
    (rest : Yields (next result) after) : Yields ((some result).bind next) after := rest

theorem Yields.bind_any {α β : Type} {first : Option α} {next : α → Option β}
    {after : β → Prop} (rest : ∀ result, Yields (next result) after) :
    Yields (first.bind next) after := by
  cases first with
  | none => trivial
  | some result => exact rest result

theorem Good.yields {operand : Operand F O} (good : state.Good ats debugging) :
    Yields (some (operand, state)) fun result => result.2.Good ats debugging := good

theorem Good.literal (good : state.Good ats debugging) (safe : Bool) (number : Nat)
    (literal : Operand F O) (value : Value F O) (tail operand clear : Bool) :
    (state.literal ats safe number literal value tail operand clear).2.Good ats debugging := by
  unfold Positioned.literal
  split
  · exact good
  case isFalse left =>
    rw [Bool.or_eq_true, not_or, Bool.not_eq_true, Bool.not_eq_true] at left
    obtain ⟨rfl, rfl⟩ := left
    cases tail with
    | true => exact (good.safePoint _ number).writeAt number rfl rfl rfl
    | false => exact (good.safePoint _ number).writeAt number rfl rfl rfl

end Positioned

section

variable {F O : Type} [Double F] (ats : Ats) (debugging : Bool) (layout : Layout)
variable (blocks : Nat → Block)

open Positioned

/-! What is emitted for a tree keeps what holds of the code before it: for each construct
of its parts. -/

def Node.EmitsGood (node : Node F O) : Prop :=
  ∀ jumps base number tail operand clear state, state.Good ats debugging →
    Yields (node.emitAt ats debugging layout blocks jumps base number tail operand clear state)
      fun result => result.2.Good ats debugging

def Nodes.SequenceGood (nodes : Nodes F O) : Prop :=
  ∀ jumps base number tail clear state, state.Good ats debugging →
    Yields (nodes.emitSequenceAt ats debugging layout blocks jumps base number tail clear state)
      fun result => result.Good ats debugging

def Nodes.ValuesGood (nodes : Nodes F O) : Prop :=
  ∀ jumps base number state, state.Good ats debugging →
    Yields (nodes.emitValuesAt ats debugging layout blocks jumps base number state)
      fun result => result.Good ats debugging

def Catches.EmitsGood (catches : Catches F O) : Prop :=
  ∀ jumps base number clear state, state.Good ats debugging →
    Yields (catches.emitAt ats debugging layout blocks jumps base number clear state)
      fun result => result.Good ats debugging

def Optional.ConditionGood (optional : Optional F O) : Prop :=
  ∀ jumps base number label state, state.Good ats debugging →
    Yields (optional.emitConditionAt ats debugging layout blocks jumps base number label state)
      fun result => result.Good ats debugging

def Optional.ClearedGood (optional : Optional F O) : Prop :=
  ∀ jumps base number state, state.Good ats debugging →
    Yields (optional.emitClearedAt ats debugging layout blocks jumps base number state)
      fun result => result.Good ats debugging

section Constructs

variable {ats debugging layout blocks}

theorem Nodes.SequenceGood.nodes {items : Nodes F O}
    (sequence : items.SequenceGood ats debugging layout blocks) :
    (Node.nodes items).EmitsGood ats debugging layout blocks := by
  intro jumps base number tail operand clear state good
  rw [Node.emitAt]
  apply Yields.bind (sequence jumps base _ tail clear state good)
  intro state good
  exact .of_some good

theorem Nodes.ValuesGood.operate {action : Action} {operands : Nodes F O}
    (values : operands.ValuesGood ats debugging layout blocks) :
    (Node.operate action operands).EmitsGood ats debugging layout blocks := by
  intro jumps base number tail operand clear state good
  rw [Node.emitAt]
  have pushed : ((state.safePoint ats (debugging && action.isLambda) number).change
      (·.pushUnless !action.isIndexing)).Good ats debugging :=
    (good.safePoint _ number).change ((Emit.Silently.refl _).pushUnless _)
  apply Yields.bind (values jumps base _ _ pushed)
  intro state good
  cases lambda : action.isLambda with
  | true =>
    apply Good.yields
    apply Good.write (good.change (.refl _))
    apply (Emit.Silently.refl _).finish
    apply Emit.silent_of_unmarked
    rw [Instr.isMarked, lambda, Bool.not_true]
  | false =>
    apply Good.yields
    exact ((good.change (.refl _)).safePoint _ _).writeAt number (Emit.finish_code ..) rfl rfl

theorem Node.EmitsGood.if_ {condition : Optional F O} {true_ false_ : Node F O}
    (asked : condition.ConditionGood ats debugging layout blocks)
    (yes : true_.EmitsGood ats debugging layout blocks)
    (no : false_.EmitsGood ats debugging layout blocks) :
    (Node.if_ condition true_ false_).EmitsGood ats debugging layout blocks := by
  intro jumps base number tail operand clear state good
  rw [Node.emitAt]
  refine Yields.bind (asked jumps base _ _ _ (good.change (.refl _))) fun state good => ?_
  refine Yields.bind (yes jumps _ _ tail false clear _ good) fun result good => ?_
  refine Yields.bind (no jumps _ _ tail false clear _ ?_) fun result good => ?_
  · apply good.change
    exact ((Emit.Silently.refl _).join _ _).jump _ _
  · apply Good.yields
    apply good.change
    exact (Emit.Silently.refl _).join _ _

theorem Node.EmitsGood.while_ {condition : Optional F O} {body : Node F O}
    (asked : condition.ConditionGood ats debugging layout blocks)
    (turn : body.EmitsGood ats debugging layout blocks) :
    (Node.while_ condition body).EmitsGood ats debugging layout blocks := by
  intro jumps base number tail operand clear state good
  rw [Node.emitAt]
  refine Yields.bind (asked jumps _ _ _ _ ?_) fun state good => ?_
  · apply good.change
    exact (Emit.Silently.refl _).join _ _
  refine Yields.bind (turn _ _ _ false false true _ (good.change (.refl _))) fun result good => ?_
  apply Good.yields
  apply good.change
  cases clear with
  | true => exact ((Emit.Silently.refl _).jump _ _).join _ _
  | false => exact (((Emit.Silently.refl _).jump _ _).join _ _).emitNull

theorem Node.EmitsGood.for_ {initialization condition next : Optional F O} {body : Node F O}
    (first : initialization.ClearedGood ats debugging layout blocks)
    (asked : condition.ConditionGood ats debugging layout blocks)
    (further : next.ClearedGood ats debugging layout blocks)
    (turn : body.EmitsGood ats debugging layout blocks) :
    (Node.for_ initialization condition next body).EmitsGood ats debugging layout blocks := by
  intro jumps base number tail operand clear state good
  rw [Node.emitAt]
  refine Yields.bind (first jumps base _ _ good) fun state good => ?_
  refine Yields.bind (asked jumps _ _ _ _ ?_) fun state good => ?_
  · apply good.change
    cases next <;> exact (Emit.Silently.refl _).join _ _
  refine Yields.bind (turn _ _ _ false false true _ (good.change (.refl _))) fun result good => ?_
  refine Yields.bind (further jumps _ _ _ ?_) fun state good => ?_
  · apply good.change
    cases next <;> exact .refl _
  apply Good.yields
  apply good.change
  cases clear with
  | true => exact ((Emit.Silently.refl _).jump _ _).join _ _
  | false => exact (((Emit.Silently.refl _).jump _ _).join _ _).emitNull

theorem Node.EmitsGood.break_ {expression : Node F O}
    (value : expression.EmitsGood ats debugging layout blocks) :
    (Node.break_ expression).EmitsGood ats debugging layout blocks := by
  intro jumps base number tail operand clear state good
  rw [Node.emitAt]
  apply Yields.bind_any
  intro label
  refine Yields.bind (value jumps base _ _ false _ _ (good.change (.refl _))) fun result good => ?_
  apply Good.yields
  apply good.change
  exact (((Emit.Silently.refl _).pushUnless clear).join _ _).jump _ _

theorem Node.EmitsGood.continue_ :
    (Node.continue_ : Node F O).EmitsGood ats debugging layout blocks := by
  intro jumps base number tail operand clear state good
  rw [Node.emitAt]
  apply Yields.bind_any
  intro label
  apply Good.yields
  have pushed := good.change ((Emit.Silently.refl state.emit).pushUnless clear)
  exact (pushed.safePoint debugging number).change ((Emit.Silently.refl _).jump _ _)

theorem Node.EmitsGood.return_ {expression : Node F O}
    (value : expression.EmitsGood ats debugging layout blocks) :
    (Node.return_ expression).EmitsGood ats debugging layout blocks := by
  intro jumps base number tail operand clear state good
  rw [Node.emitAt]
  apply Yields.bind_any
  intro label
  refine Yields.bind (value jumps base _ _ false false _ (good.change (.refl _)))
    fun result good => ?_
  apply Good.yields
  apply good.change
  cases jumps.returnIsTail with
  | true =>
    apply Emit.Silently.pushUnless
    exact (Emit.Silently.refl _).emit fun _ stage => by cases stage <;> rfl
  | false =>
    apply Emit.Silently.pushUnless
    exact ((Emit.Silently.refl _).join _ _).jump _ _

theorem Node.EmitsGood.try_ {body : Node F O} {catches : Catches F O} {finally_ : Optional F O}
    (tried : body.EmitsGood ats debugging layout blocks)
    (clauses : catches.EmitsGood ats debugging layout blocks)
    (last : finally_.ClearedGood ats debugging layout blocks) :
    (Node.try_ body catches finally_).EmitsGood ats debugging layout blocks := by
  intro jumps base number tail operand clear state good
  rw [Node.emitAt]
  refine Yields.bind (tried _ _ _ false false clear _ ?_) fun result good => ?_
  · apply good.change
    exact ((Emit.Silently.refl _).join _ _).emit fun _ stage => by cases stage <;> rfl
  refine Yields.bind (clauses _ _ _ clear _ ?_) fun state good => ?_
  · apply good.change
    exact (Emit.Silently.refl _).finally_ _
  refine Yields.bind (last _ _ _ _ ?_) fun state good => ?_
  · apply good.change
    have closed : state.emit.Silently
        (((((state.emit.emit (.finally_ .throw_)).emit (.finally_ .break_)).emit
          (.finally_ .continue_)).emit (.finally_ .return_))) :=
      ((((Emit.Silently.refl _).finally_ _).finally_ _).finally_ _).finally_ _
    cases finally_.isSome with
    | true => cases clear <;> exact closed
    | false => exact closed
  apply Good.yields
  apply good.change
  have popped : state.emit.Silently
      (if finally_.isSome then state.emit.popIf clear else state.emit) := by
    split
    · exact (Emit.Silently.refl _).popIf _
    · exact .refl _
  exact (((popped.operand _ _).operand _ _).operand _ _).close layout (_, _) (_, _) (_, _)
    (_, _, _) (_, _, _) (_, _) _

theorem Node.EmitsGood.throw_ {expression : Node F O}
    (value : expression.EmitsGood ats debugging layout blocks) :
    (Node.throw_ expression).EmitsGood ats debugging layout blocks := by
  intro jumps base number tail operand clear state good
  rw [Node.emitAt]
  refine Yields.bind (value jumps base _ false false false _ good) fun result good => ?_
  apply Good.yields
  cases clear <;> exact good.writeAt number rfl rfl rfl

theorem Node.EmitsGood.symbolGet (resolved : Nat) (variable_ : Option Nat) (symbol : Nat) :
    (Node.symbolGet resolved variable_ symbol : Node F O).EmitsGood ats debugging layout
      blocks := by
  intro jumps base number tail operand clear state good
  cases variable_ with
  | none =>
    rw [Node.emitAt]
    exact .of_some ((good.safePoint _ _).writeAt number (Emit.finish_code ..) rfl rfl)
  | some variable_ =>
    rw [Node.emitAt]
    dsimp only
    split
    · exact .yields ((good.safePoint _ _).writeAt number (Emit.finish_code ..) rfl rfl)
    · have known (part : Emit F O → Emit F O)
          (same : ∀ emit, part emit = (layout.slot variable_).elim emit emit.known) :
          (state.change part).Good ats debugging := by
        apply good.change
        rw [same]
        cases layout.slot variable_ with
        | none => exact .refl _
        | some slot => exact (Emit.Silently.refl _).known slot
      split
      · exact (known _ fun _ => by cases layout.slot variable_ <;> rfl).yields
      · apply Good.yields
        cases tail <;>
          exact ((known _ fun _ => by cases layout.slot variable_ <;> rfl).safePoint _ _).writeAt
            number (Emit.finish_code ..) rfl rfl

theorem Node.EmitsGood.scopePut {outer variable_ : Nat} {value : Node F O}
    (put : value.EmitsGood ats debugging layout blocks) :
    (Node.scopePut outer variable_ value).EmitsGood ats debugging layout blocks := by
  intro jumps base number tail operand clear state good
  rw [Node.emitAt]
  dsimp only
  split
  · refine Yields.bind (put jumps base _ false true false _ good)
      fun (operand, state) good => ?_
    apply Good.yields
    have assigned := (good.safePoint debugging number).change
      ((Emit.Silently.refl _).assign (layout.slot variable_))
    cases operand <;> exact assigned.writeAt number rfl rfl rfl
  · refine Yields.bind (put jumps base _ false false false _ good) fun result good => ?_
    apply Good.yields
    cases (layout.variableOf variable_).isShared <;> cases clear <;>
      cases layout.slot variable_ <;> exact (good.safePoint _ _).writeAt number rfl rfl rfl

theorem Node.EmitsGood.self (outer : Nat) :
    (Node.self outer : Node F O).EmitsGood ats debugging layout blocks := by
  intro jumps base number tail operand clear state good
  rw [Node.emitAt]
  cases clear with
  | true => exact good.yields
  | false =>
    apply Good.yields
    apply (good.safePoint _ _).writeAt number rfl
    · split <;> rfl
    · split <;> rfl

theorem Node.EmitsGood.unary {op : Unary} {expression : Node F O}
    (value : expression.EmitsGood ats debugging layout blocks) :
    (Node.unary op expression).EmitsGood ats debugging layout blocks := by
  intro jumps base number tail operand clear state good
  rw [Node.emitAt]
  refine Yields.bind (value jumps base _ false true false _ (good.change (.refl _)))
    fun (found, state) good => ?_
  dsimp only
  cases foldUnary op found with
  | operand folded =>
    apply Yields.bind_any
    intro value
    exact .of_some ((good.change (.refl _)).literal ..)
  | instruction =>
    apply Good.yields
    apply Good.writeAt number _ (Emit.finish_code ..) rfl rfl
    apply Good.change (good.safePoint _ _)
    exact (Emit.Silently.refl _).pushUnless _
  | throwNotSupported => trivial
  | undefined => trivial

theorem Node.EmitsGood.binary {op : Binary} {left right : Node F O}
    (first : left.EmitsGood ats debugging layout blocks)
    (second : right.EmitsGood ats debugging layout blocks) :
    (Node.binary op left right).EmitsGood ats debugging layout blocks := by
  intro jumps base number tail operand clear state good
  rw [Node.emitAt]
  refine Yields.bind (first jumps base _ false true false _ (good.change (.refl _)))
    fun (found0, state) good => ?_
  refine Yields.bind (second jumps _ _ false true false _
    (good.change ((Emit.Silently.refl _).pushUnless _))) fun (found1, state) good => ?_
  dsimp only
  cases foldBinary op found0 found1 with
  | operand folded =>
    apply Yields.bind_any
    intro value
    exact .of_some ((good.change (.refl _)).literal ..)
  | instruction =>
    apply Good.yields
    refine good.writeSafe number (fun _ => ?_) (Emit.finish_code ..) rfl
    cases found1.isTemporary <;> rfl
  | throwNotSupported => trivial
  | undefined => trivial

section Calls

variable {target : Node F O} {operands arguments : Nodes F O} {expands : List Nat}

omit [Double F] in
theorem Positioned.Good.called {state : Positioned F O} (good : state.Good ats debugging)
    (number stack : Nat) (callee : Callee) (tail clear : Bool) (count : Nat)
    (expands : List Nat) :
    (((state.change (·.atStack stack)).safePoint ats debugging number).writeCall ats number
      callee expands fun emit =>
        emit.finish (.call callee tail stack count expands) clear).Good ats debugging :=
  ((good.change (.refl _)).safePoint _ _).writeCall number callee expands
    (Emit.finish_code ..) (fun _ => rfl) rfl fun _ unsupported => by cases unsupported

theorem Nodes.ValuesGood.callMethod {key : Nat}
    (receiver : operands.ValuesGood ats debugging layout blocks)
    (values : arguments.ValuesGood ats debugging layout blocks) :
    (Node.call (.operate (.objectGet key) operands) arguments expands).EmitsGood ats debugging
      layout blocks := by
  intro jumps base number tail operand clear state good
  rw [Node.emitAt]
  refine Yields.bind (receiver jumps base _ _ good) fun state good => ?_
  apply Yields.bind_some
  refine Yields.bind (values jumps _ _ _ ?_) fun state good => ?_
  · exact (good.safePoint _ _).writeAt _ rfl rfl rfl
  · exact (good.called ..).yields

theorem Nodes.ValuesGood.callAt (receiver : operands.ValuesGood ats debugging layout blocks)
    (values : arguments.ValuesGood ats debugging layout blocks) :
    (Node.call (.operate .getAt operands) arguments expands).EmitsGood ats debugging layout
      blocks := by
  intro jumps base number tail operand clear state good
  rw [Node.emitAt]
  refine Yields.bind (receiver jumps base _ _ good) fun state good => ?_
  apply Yields.bind_some
  refine Yields.bind (values jumps _ _ _ ?_) fun state good => ?_
  · exact (good.safePoint _ _).writeAt _ rfl rfl rfl
  · exact (good.called ..).yields

theorem Node.EmitsGood.call (value : target.EmitsGood ats debugging layout blocks)
    (values : arguments.ValuesGood ats debugging layout blocks)
    (method : ¬∃ key operands, target = .operate (.objectGet key) operands)
    (getter : ¬∃ operands, target = .operate .getAt operands) :
    (Node.call target arguments expands).EmitsGood ats debugging layout blocks := by
  intro jumps base number tail operand clear state good
  rw [Node.emitAt]
  case x_2 => exact fun key operands same => method ⟨key, operands, same⟩
  case x_3 => exact fun operands same => getter ⟨operands, same⟩
  cases target.called layout expands with
  | some found =>
    refine Yields.bind (values jumps _ _ _ (good.change (.refl _))) fun state good => ?_
    exact (good.called ..).yields
  | none =>
    refine Yields.bind (value jumps base _ false false false _ good) fun result good => ?_
    apply Yields.bind_some
    refine Yields.bind (values jumps _ _ _ ?_) fun state good => ?_
    · exact good.change (Emit.Silently.emitNull (.refl _))
    · exact (good.called ..).yields

end Calls

theorem Nodes.SequenceGood.nil :
    (Nodes.nil : Nodes F O).SequenceGood ats debugging layout blocks := by
  intro jumps base number tail clear state good
  rw [Nodes.emitSequenceAt]
  apply Yields.of_some
  apply good.change
  cases clear with
  | true => exact .refl _
  | false => exact Emit.Silently.emitNull (.refl _)

theorem Nodes.SequenceGood.cons {head : Node F O} {rest : Nodes F O}
    (first : head.EmitsGood ats debugging layout blocks)
    (others : rest.SequenceGood ats debugging layout blocks) :
    (Nodes.cons head rest).SequenceGood ats debugging layout blocks := by
  intro jumps base number tail clear state good
  rw [Nodes.emitSequenceAt]
  split
  · apply Yields.bind (first jumps base number tail false clear state good)
    intro result good
    exact .of_some good
  · apply Yields.bind (first jumps base number false false true state good)
    intro result good
    exact others jumps _ _ tail clear _ good

theorem Nodes.ValuesGood.nil : (Nodes.nil : Nodes F O).ValuesGood ats debugging layout blocks := by
  intro jumps base number state good
  rw [Nodes.emitValuesAt]
  exact .of_some good

theorem Nodes.ValuesGood.cons {head : Node F O} {rest : Nodes F O}
    (first : head.EmitsGood ats debugging layout blocks)
    (others : rest.ValuesGood ats debugging layout blocks) :
    (Nodes.cons head rest).ValuesGood ats debugging layout blocks := by
  intro jumps base number state good
  rw [Nodes.emitValuesAt]
  apply Yields.bind (first jumps base number false false false state good)
  intro result good
  exact others jumps _ _ _ good

theorem Catches.EmitsGood.nil :
    (Catches.nil : Catches F O).EmitsGood ats debugging layout blocks := by
  intro jumps base number clear state good
  rw [Catches.emitAt]
  exact .of_some good

theorem Catches.EmitsGood.cons {expression body : Node F O} {variable_ : Nat}
    {rest : Catches F O} (asked : expression.EmitsGood ats debugging layout blocks)
    (caught : body.EmitsGood ats debugging layout blocks)
    (others : rest.EmitsGood ats debugging layout blocks) :
    (Catches.cons expression variable_ body rest).EmitsGood ats debugging layout blocks := by
  intro jumps base number clear state good
  rw [Catches.emitAt]
  cases !(layout.variableOf variable_).isShared &&
    decide ((layout.variableOf variable_).index < layout.arguments) with
  | true => trivial
  | false =>
    refine Yields.bind (asked jumps _ _ false false false _
      (good.change ((Emit.Silently.refl _).popIf _))) fun result good => ?_
    refine Yields.bind (caught jumps _ _ false false clear _ ?_) fun result good => ?_
    · apply good.write
      exact (Emit.Silently.refl _).emit (Emit.silent_of_unmarked rfl)
    · apply others jumps _ _ clear
      apply good.change
      exact (Emit.Silently.refl _).finally_ _

theorem Optional.ConditionGood.none :
    (Optional.none : Optional F O).ConditionGood ats debugging layout blocks := by
  intro jumps base number label state good
  rw [Optional.emitConditionAt]
  exact .of_some good

theorem Optional.ConditionGood.some {node : Node F O}
    (value : node.EmitsGood ats debugging layout blocks) :
    (Optional.some node).ConditionGood ats debugging layout blocks := by
  intro jumps base number label state good
  rw [Optional.emitConditionAt]
  apply Yields.bind (value jumps base number false false false state good)
  intro result good
  apply Yields.of_some
  apply good.change
  exact Emit.Silently.emit (.refl _) fun _ stage => by cases stage <;> rfl

theorem Optional.ClearedGood.none :
    (Optional.none : Optional F O).ClearedGood ats debugging layout blocks := by
  intro jumps base number state good
  rw [Optional.emitClearedAt]
  exact .of_some good

theorem Optional.ClearedGood.some {node : Node F O}
    (value : node.EmitsGood ats debugging layout blocks) :
    (Optional.some node).ClearedGood ats debugging layout blocks := by
  intro jumps base number state good
  rw [Optional.emitClearedAt]
  apply Yields.bind (value jumps base number false false true state good)
  intro result good
  exact .of_some good

end Constructs

mutual

theorem Node.emit_good : ∀ node : Node F O, node.EmitsGood ats debugging layout blocks
  | .nodes items => (Nodes.sequence_good items).nodes
  | .operate _ operands => (Nodes.values_good operands).operate
  | .if_ condition true_ false_ =>
      .if_ (Optional.condition_good condition) (Node.emit_good true_) (Node.emit_good false_)
  | .while_ condition body => .while_ (Optional.condition_good condition) (Node.emit_good body)
  | .for_ initialization condition next body =>
      .for_ (Optional.cleared_good initialization) (Optional.condition_good condition)
        (Optional.cleared_good next) (Node.emit_good body)
  | .break_ expression => .break_ (Node.emit_good expression)
  | .continue_ => .continue_
  | .return_ expression => .return_ (Node.emit_good expression)
  | .try_ body catches finally_ =>
      .try_ (Node.emit_good body) (Catches.emit_good catches) (Optional.cleared_good finally_)
  | .throw_ expression => .throw_ (Node.emit_good expression)
  | .symbolGet resolved variable_ symbol => .symbolGet resolved variable_ symbol
  | .scopePut _ _ value => .scopePut (Node.emit_good value)
  | .self outer => .self outer
  | .literal literal => by
      intro jumps base number tail operand clear state good
      rw [Node.emitAt]
      exact .of_some (good.literal ..)
  | .unary _ expression => .unary (Node.emit_good expression)
  | .binary _ left right => .binary (Node.emit_good left) (Node.emit_good right)
  | .preserve => by
      intro jumps base number tail operand clear state good
      rw [Node.emitAt]
      exact .of_some (good.change ((Emit.Silently.refl _).pushUnless _))
  | .call target arguments expands => by
      have values := Nodes.values_good arguments
      by_cases method : ∃ key operands, target = .operate (.objectGet key) operands
      · obtain ⟨key, operands, rfl⟩ := method
        exact (Nodes.values_good operands).callMethod values
      by_cases getter : ∃ operands, target = .operate .getAt operands
      · obtain ⟨operands, rfl⟩ := getter
        exact (Nodes.values_good operands).callAt values
      exact (Node.emit_good target).call values method getter
  termination_by tree => sizeOf tree

theorem Nodes.sequence_good :
    ∀ nodes : Nodes F O, nodes.SequenceGood ats debugging layout blocks
  | .nil => .nil
  | .cons head rest => .cons (Node.emit_good head) (Nodes.sequence_good rest)
  termination_by tree => sizeOf tree

theorem Nodes.values_good : ∀ nodes : Nodes F O, nodes.ValuesGood ats debugging layout blocks
  | .nil => .nil
  | .cons head rest => .cons (Node.emit_good head) (Nodes.values_good rest)
  termination_by tree => sizeOf tree

theorem Catches.emit_good : ∀ catches : Catches F O, catches.EmitsGood ats debugging layout blocks
  | .nil => .nil
  | .cons expression _ body rest =>
      .cons (Node.emit_good expression) (Node.emit_good body) (Catches.emit_good rest)
  termination_by tree => sizeOf tree

theorem Optional.condition_good :
    ∀ optional : Optional F O, optional.ConditionGood ats debugging layout blocks
  | .none => .none
  | .some node => .some (Node.emit_good node)
  termination_by tree => sizeOf tree

theorem Optional.cleared_good :
    ∀ optional : Optional F O, optional.ClearedGood ats debugging layout blocks
  | .none => .none
  | .some node => .some (Node.emit_good node)
  termination_by tree => sizeOf tree

end

end

namespace Scope

variable {F O : Type}

theorem prologue_silent (scope : Scope F O) :
    ∀ instruction ∈ scope.prologue, instruction.Silent := by
  intro instruction member _ stage
  rcases List.mem_append.mp member with self | copied
  · split at self
    · simp only [List.mem_cons, List.not_mem_nil, or_false] at self
      obtain rfl | rfl := self <;> cases stage <;> rfl
    · cases self
  · obtain ⟨⟨parameter, i⟩, _, inside⟩ := List.mem_flatMap.mp copied
    dsimp only at inside
    split at inside
    · simp only [List.mem_cons, List.not_mem_nil, or_false] at inside
      obtain rfl | rfl := inside <;> cases stage <;> rfl
    · cases inside

theorem start_good (ats : Ats) (debugging : Bool) (scope : Scope F O) :
    scope.startAt.Good ats debugging where
  bounded := List.forall_mem_nil _
  ascending := .nil
  instructions := Positioned.sitesFrom_instructions ..
  found := by
    intro site member marked stage offset recorded
    have silent := prologue_silent scope _ (Positioned.mem_sitesFrom member).1
    rw [silent marked stage] at recorded
    cases recorded
  pointed := by
    intro _ site member unsupported
    rw [(prologue_silent scope _ (Positioned.mem_sitesFrom member).1).supported] at unsupported
    cases unsupported

theorem emit_good [Double F] (ats : Ats) (debugging : Bool) (scope : Scope F O) :
    Positioned.Yields (scope.emitAt ats debugging) (Positioned.Good ats debugging) := by
  rw [Scope.emitAt]
  apply Positioned.Yields.bind (Node.emit_good ats debugging scope.layout _ scope.body scope.jumps 2 0
    scope.isLambda false (!scope.isLambda) _ (start_good ats debugging scope))
  intro result good
  dsimp only
  split
  · apply Positioned.Yields.of_some
    apply good.change
    exact Emit.Silently.emit (.refl _) fun _ stage => by cases stage <;> rfl
  · apply Positioned.Yields.of_some
    apply good.change
    exact Emit.Silently.emit (.refl _) fun _ stage => by cases stage <;> rfl

end Scope

section Throwing

variable {F O W : Type}

def thrownBy {α : Type} : Except (Value F O) α → Option (Value F O)
  | .error thrown => some thrown
  | .ok _ => none

theorem thrownBy_eq {α : Type} {result : Except (Value F O) α} {thrown : Value F O}
    (same : thrownBy result = some thrown) : result = .error thrown := by
  cases result with
  | error other => exact congrArg _ (Option.some.inj same)
  | ok => cases same

variable (runtime : Runtime F O W) (privates : Nat)

/-- What an instruction throws, or a call that it makes. -/
def Instr.raises (frames : List (TryFrame F O)) (state : State F O W) :
    Instr F O → Option (Value F O)
  | .throw_ stack => some (state.slot stack)
  | .operate action _ stack count =>
      let first := if action.isIndexing then stack + 1 else stack
      thrownBy (runtime.operate action (state.operands first count) state.world).1
  | .bind binding stack =>
      thrownBy (runtime.bind binding (state.operands stack binding.operands) state.world).1
  | .unary op operand _ stack =>
      thrownBy
        (runtime.unary op operand (state.fetch operand (state.slot (stack + 1))) state.world).1
  | .binary op left right _ stack =>
      thrownBy (runtime.binary op left right (state.fetch left (state.slot (stack + 1)))
        (state.fetch right (state.slot (stack + 2))) state.world).1
  | .call callee _ stack count expands =>
      let arguments := state.operands (stack + 2) count
      match callee with
      | .stack =>
          thrownBy (runtime.call expands (state.slot stack) (state.slot (stack + 1)) arguments
            state.world).1
      | .slot index _ =>
          let state := state.write privates (stack + 1) .null
          thrownBy (runtime.call expands (state.slot index) .null arguments state.world).1
      | .scope outer index =>
          thrownBy (runtime.call expands (runtime.scopeGet outer index state.world) .null arguments
            state.world).1
  | .catch_ _ _ _ =>
      match frames with
      | ⟨stack, _, _, _, .catching thrown⟩ :: _ =>
          thrownBy (runtime.catches thrown (state.slot stack) state.world).1
      | _ => none
  | _ => none

variable {runtime privates} {frames : List (TryFrame F O)} {state : State F O W}
  {instruction : Instr F O} {thrown : Value F O}

theorem deliver_of_thrown {pc stack : Nat} {tail : Bool}
    {result : Except (Value F O) (Value F O) × W} (raised : thrownBy result.1 = some thrown) :
    Config.deliver privates pc frames tail stack state result =
      .unwind frames thrown (state.setWorld result.2) := by
  simp only [Config.deliver, thrownBy_eq raised]

/-- The interpreter unwinds from an instruction that throws. -/
theorem execute_of_raises (pc : Nat)
    (raised : instruction.raises runtime privates frames state = some thrown) :
    ∃ after, execute runtime privates pc frames state instruction =
      .unwind frames thrown after := by
  cases instruction with
  | throw_ stack =>
    obtain rfl := Option.some.inj raised
    exact ⟨state, rfl⟩
  | operate action tail stack count => exact ⟨_, deliver_of_thrown raised⟩
  | bind binding stack =>
    have failed := thrownBy_eq raised
    simp only [execute]
    split
    case h_1 other world same =>
      rw [same] at failed
      obtain rfl := Except.error.inj failed
      exact ⟨state.setWorld world, rfl⟩
    case h_2 same =>
      rw [same] at failed
      cases failed
  | unary op operand tail stack => exact ⟨_, deliver_of_thrown raised⟩
  | binary op left right tail stack => exact ⟨_, deliver_of_thrown raised⟩
  | call callee tail stack count expands =>
    cases callee with
    | stack => exact ⟨_, deliver_of_thrown raised⟩
    | slot index known => exact ⟨_, deliver_of_thrown raised⟩
    | scope outer index => exact ⟨_, deliver_of_thrown raised⟩
  | catch_ label isShared index =>
    simp only [Instr.raises] at raised
    split at raised
    case h_1 stack catch0 finally0 exposed caught rest =>
      have failed := thrownBy_eq raised
      simp only [execute]
      split
      case h_1 other world same =>
        rw [same] at failed
        obtain rfl := Except.error.inj failed
        exact ⟨state.setWorld world, rfl⟩
      all_goals
        rename_i same
        rw [same] at failed
        cases failed
    case h_2 => cases raised
  | _ => cases raised

end Throwing

/-- An instruction that has thrown, with the counter from its opcode on. -/
structure Raise (F O : Type) where
  pc : Nat
  instruction : Instr F O
  stage : Stage
  offset : Nat

section Runs

variable {F O W : Type} (runtime : Runtime F O W) (privates : Nat) (code : List (Instr F O))

/-- A run with the counters that go into backtraces. A safe point does nothing to
the frame and is left out. What a tail call has called throws only after the
frame has been left. -/
inductive Traces : Config F O W → List (Raise F O) → Config F O W → Prop where
  | stop (config : Config F O W) : Traces config [] config
  | quiet {config last : Config F O W} {raises : List (Raise F O)}
      (quiet : ∀ pc frames state instruction, config = .at pc frames state →
        code[pc]? = some instruction → instruction.raises runtime privates frames state = none)
      (rest : Traces (step runtime privates code config) raises last) :
      Traces config raises last
  | raised {pc offset : Nat} {frames : List (TryFrame F O)} {state : State F O W}
      {last : Config F O W} {raises : List (Raise F O)} {instruction : Instr F O}
      {thrown : Value F O} {stage : Stage}
      (fetched : code[pc]? = some instruction)
      (raised : instruction.raises runtime privates frames state = some thrown)
      (recorded : instruction.recorded stage = some offset)
      (rest : Traces (step runtime privates code (.at pc frames state)) raises last) :
      Traces (.at pc frames state) (⟨pc, instruction, stage, offset⟩ :: raises) last
  | left {pc : Nat} {frames : List (TryFrame F O)} {state : State F O W} {last : Config F O W}
      {raises : List (Raise F O)} {instruction : Instr F O} {thrown : Value F O}
      (fetched : code[pc]? = some instruction)
      (raised : instruction.raises runtime privates frames state = some thrown)
      (left : instruction.recorded .last = none)
      (rest : Traces (step runtime privates code (.at pc frames state)) raises last) :
      Traces (.at pc frames state) raises last

end Runs

namespace Positioned

variable {F O : Type} {ats : Ats} {debugging : Bool} {state : Positioned F O}

/-- `t_code::f_at` of the counter gives a position that the error belongs to. -/
def Locates (ats : Ats) (state : Positioned F O) (raise : Raise F O) : Prop :=
  ∃ site entry, state.sites[raise.pc]? = some site ∧
    findAt state.ats (site.start + raise.offset) = some entry ∧
    site.origin.Gives ats entry.toAt raise.stage

/-- No position has been entered from the opcode of an instruction on. -/
def Vacant (state : Positioned F O) (pc : Nat) : Prop :=
  ∀ site, state.sites[pc]? = some site → ∀ entry ∈ state.ats,
    entry.address < site.start ∨ site.start + site.instruction.width ≤ entry.address

/-- An instruction with an entry behind it, and where it is of a form that is not supported
without others at its opcode than that of its safe point. -/
structure Covers (debugging : Bool) (state : Positioned F O) (raise : Raise F O) : Prop where
  marked : raise.instruction.isMarked = true
  vacant : raise.instruction.isUnsupported = true → debugging = false → state.Vacant raise.pc

theorem Good.locates (good : state.Good ats debugging) (target : Nat → Nat) {raise : Raise F O}
    (fetched : (state.emit.code.map (Instr.resolve target))[raise.pc]? = some raise.instruction)
    (recorded : raise.instruction.recorded raise.stage = some raise.offset)
    (covers : state.Covers debugging raise) : state.Locates ats raise := by
  rw [← good.instructions, List.map_map, List.getElem?_map] at fetched
  obtain ⟨site, here, same⟩ := Option.map_eq_some_iff.mp fetched
  have member : site ∈ state.sites := List.mem_of_getElem? here
  obtain ⟨marked, vacant⟩ := covers
  simp only [Function.comp] at same
  rw [← same, Instr.resolve_marked] at marked
  rw [← same, Instr.resolve_unsupported] at vacant
  rw [← same, Instr.resolve_recorded, Instr.recorded] at recorded
  split at recorded
  next early =>
    obtain ⟨unsupported, last⟩ := early
    have opcode : site.start + raise.offset = site.start :=
      congrArg (site.start + ·) (Option.some.inj recorded).symm
    rw [Locates, last]
    cases debugging with
    | true =>
      obtain ⟨entry, found, gives⟩ := good.pointed rfl site member unsupported
      rw [← opcode] at found
      exact ⟨site, entry, here, found, gives⟩
    | false =>
      obtain ⟨entry, found, gives⟩ := good.found site member marked .last _
        (Instr.unsupported_counter unsupported).2
      rw [← findAt_gap (vacant unsupported rfl site here), ← opcode] at found
      exact ⟨site, entry, here, found, gives⟩
  next =>
    obtain ⟨entry, found, gives⟩ := good.found site member marked raise.stage raise.offset recorded
    exact ⟨site, entry, here, found, gives⟩

end Positioned

section Located

variable {F O W : Type} {runtime : Runtime F O W} {privates : Nat} {code : List (Instr F O)}

theorem Traces.of_code {first last : Config F O W} {raises : List (Raise F O)}
    (traces : Traces runtime privates code first raises last) :
    ∀ raise ∈ raises, code[raise.pc]? = some raise.instruction ∧
      raise.instruction.recorded raise.stage = some raise.offset := by
  induction traces with
  | stop => exact List.forall_mem_nil _
  | quiet _ _ ih => exact ih
  | raised fetched _ recorded _ ih => exact List.forall_mem_cons.mpr ⟨⟨fetched, recorded⟩, ih⟩
  | left _ _ _ _ ih => exact ih

/-- In every run whose throwing instructions have entries, and none of another node at their
opcode where they throw there, the backtrace gives the position of each. -/
theorem traces_located [Double F] {scope : Scope F O} {ats : Ats} {debugging : Bool}
    {emitted : Positioned F O} (emits : scope.emitAt ats debugging = some emitted)
    (compiled : scope.compile = some code) {first last : Config F O W}
    {raises : List (Raise F O)}
    (traces : Traces runtime scope.layout.privates code first raises last)
    (covers : ∀ raise ∈ raises, emitted.Covers debugging raise) :
    ∀ raise ∈ raises, emitted.Locates ats raise := by
  have good : emitted.Good ats debugging := by
    have yields := scope.emit_good ats debugging
    rw [emits] at yields
    exact yields
  have same : code = emitted.emit.code.map (Instr.resolve emitted.emit.target) := by
    have bare := scope.emit_bare ats debugging
    rw [emits, Option.map_some] at bare
    rw [Scope.compile, ← bare] at compiled
    exact (Option.some.inj compiled).symm
  subst same
  intro raise member
  obtain ⟨fetched, recorded⟩ := traces.of_code raise member
  exact good.locates _ fetched recorded (covers raise member)

end Located

section Samples

def Scope.ofBody (body : Node Int Nat) : Scope Int Nat where
  layout := ⟨0, 0, fun _ => ⟨true, false, 0⟩, fun _ absurd => by cases absurd⟩
  isLambda := false
  isSelfShared := false
  parameters := []
  body := body

def Ats.numbered : Ats where
  node number := ⟨0, number, 0⟩
  asterisk number index := ⟨0, number, index + 1⟩

/-- Globals are null, and calls and type checks fail. -/
def Runtime.failing : Runtime Int Nat Unit where
  operate _ _ world := (.ok .null, world)
  unary _ _ _ world := (.ok .null, world)
  binary _ _ _ _ _ world := (.ok .null, world)
  bind _ _ world := (.ok (.null, .null), world)
  call _ _ _ _ world := (.error .null, world)
  catches _ _ world := (.error .null, world)
  scopeGet _ _ _ := .null
  scopePut _ _ _ world := world
  self := .null

def State.blank : State Int Nat Unit where
  slot _ := .null
  assigned _ := .null
  written _ := false
  log := []
  world := ()

/-- `f(*xs)` -/
def expandingCall : Node Int Nat :=
  .call (.symbolGet 0 none 7) (.cons (.symbolGet 0 none 8) .nil) [0]

/-- `try throw x catch 1 e y` -/
def uncatchingTry : Node Int Nat :=
  .try_ (.throw_ (.symbolGet 0 none 7))
    (.cons (.literal (.integer 1)) 0 (.symbolGet 0 none 8) .nil) .none

end Samples

theorem Traces.goes {F O W : Type} {runtime : Runtime F O W} {privates pc : Nat}
    {code : List (Instr F O)} {frames : List (TryFrame F O)} {state : State F O W}
    {instruction : Instr F O} {raises : List (Raise F O)} {last : Config F O W}
    (fetched : code[pc]? = some instruction)
    (silent : instruction.raises runtime privates frames state = none)
    (rest : Traces runtime privates code (step runtime privates code (.at pc frames state)) raises
      last) : Traces runtime privates code (.at pc frames state) raises last := by
  apply Traces.quiet _ rest
  intro pc frames state other same again
  cases same
  rw [fetched] at again
  cases again
  exact silent

/-- The call fails in the expansion of its argument. -/
theorem traces_located_call : ∃ emitted code last raises,
    (Scope.ofBody expandingCall).emitAt .numbered false = some emitted ∧
    (Scope.ofBody expandingCall).compile = some code ∧
    Traces .failing 0 code (.at 0 [] .blank) raises last ∧
    raises = [⟨3, .call .stack false 0 1 [0], .expanding 0, 3⟩] ∧
    ∀ raise ∈ raises, emitted.Locates .numbered raise := by
  have isSome : ((Scope.ofBody expandingCall).emitAt .numbered false).isSome = true := by
    decide +kernel
  obtain ⟨emitted, emits⟩ := Option.isSome_iff_exists.mp isSome
  have compiled : (Scope.ofBody expandingCall).compile = some
      [.operate (.globalGet 7) false 0 0, .load 1 .null, .operate (.globalGet 8) false 2 0,
        .call .stack false 0 1 [0], .returnLoad .null] := by
    decide +kernel
  have traces : ∃ last, Traces .failing 0
      [.operate (.globalGet 7) false 0 0, .load 1 .null, .operate (.globalGet 8) false 2 0,
        .call .stack false 0 1 [0], .returnLoad .null] (.at 0 [] .blank)
      [⟨3, .call .stack false 0 1 [0], .expanding 0, 3⟩] last :=
    ⟨_, .goes rfl rfl (.goes rfl rfl (.goes rfl rfl (.raised rfl rfl rfl (.stop _))))⟩
  obtain ⟨last, traces⟩ := traces
  exact ⟨emitted, _, last, _, emits, compiled, traces, rfl,
    traces_located emits compiled traces
      (List.forall_mem_singleton.mpr ⟨rfl, fun unsupported => by cases unsupported⟩)⟩

/-- `1.5 % g` is not supported, and the entry at its opcode is that of `g`. -/
example : ((Scope.ofBody
      (.binary .modulus (.literal (.float 3)) (.symbolGet 0 none 7))).emitAt .numbered false).map
    (fun emitted => (emitted.sites[1]?, findAt emitted.ats 4)) =
    some (some ⟨4, .binary .modulus (.float 3) .temporary false 0, .node 0⟩,
      some ⟨⟨0, 2, 0⟩, 4⟩) := by
  decide +kernel

/-- The position of the type check of a `catch` is that of the body of the clause. -/
theorem clause_unlocated : ∃ emitted code last raises,
    (Scope.ofBody uncatchingTry).emitAt .numbered false = some emitted ∧
    (Scope.ofBody uncatchingTry).compile = some code ∧
    Traces .failing 0 code (.at 0 [] .blank) raises last ∧
    ∃ raise ∈ raises, raise.stage = .checking ∧ ¬emitted.Locates .numbered raise := by
  have written : ((Scope.ofBody uncatchingTry).emitAt .numbered false).map
      (fun emitted => (emitted.sites[5]?, findAt emitted.ats 16)) =
      some (some ⟨15, .catch_ 6 true 0, .clause 3 1⟩, some ⟨⟨0, 4, 0⟩, 22⟩) := by
    decide +kernel
  obtain ⟨emitted, emits, same⟩ := Option.map_eq_some_iff.mp written
  obtain ⟨here, found⟩ := Prod.mk.inj same
  have compiled : (Scope.ofBody uncatchingTry).compile = some
      [.try_ 0 4 12 [], .operate (.globalGet 7) false 0 0, .throw_ 0, .finally_ .step,
        .load 0 (.integer 1), .catch_ 8 true 0, .operate (.globalGet 8) false 0 0,
        .finally_ .step, .finally_ .throw_, .finally_ .break_, .finally_ .continue_,
        .finally_ .return_, .yrt none none none, .returnLoad .null] := by
    decide +kernel
  have traces : ∃ last, Traces .failing 0
      [.try_ 0 4 12 [], .operate (.globalGet 7) false 0 0, .throw_ 0, .finally_ .step,
        .load 0 (.integer 1), .catch_ 8 true 0, .operate (.globalGet 8) false 0 0,
        .finally_ .step, .finally_ .throw_, .finally_ .break_, .finally_ .continue_,
        .finally_ .return_, .yrt none none none, .returnLoad .null] (.at 0 [] .blank)
      [⟨2, .throw_ 0, .last, 2⟩, ⟨5, .catch_ 8 true 0, .checking, 1⟩] last :=
    ⟨_, .goes rfl rfl (.goes rfl rfl (.raised rfl rfl rfl (.goes rfl rfl
      (.raised rfl rfl rfl (.stop _)))))⟩
  obtain ⟨last, traces⟩ := traces
  refine ⟨emitted, _, last, _, emits, compiled, traces, ⟨5, .catch_ 8 true 0, .checking, 1⟩,
    List.mem_cons_of_mem _ (List.mem_cons_self ..), rfl, ?_⟩
  intro ⟨site, entry, there, other, gives⟩
  rw [here] at there
  cases there
  cases found.symm.trans other
  obtain ⟨number, low, high, gives | ⟨index, gives⟩⟩ := gives
  · have line : 4 = number := congrArg At.line gives
    omega
  · have line : 4 = number := congrArg At.line gives
    omega

end Xemmai
