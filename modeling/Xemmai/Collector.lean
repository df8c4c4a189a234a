import Xemmai.Machine
import Xemmai.Object

/-!
# The collector thread

`t_engine::f_collector` as a machine: a state is the objects, the lists that
the thread keeps besides the roots, and where its code stands. Each loop takes
one step for a turn, and each pass one for an object it steps on, so that
mutators may change fields between any two of them: a step that looks at the
fields of an object is given what it finds there. A step is not enabled where
the code would follow a link that is not set, or an object without its type.
-/

namespace Xemmai.Collector

set_option autoImplicit false

/-- Where `f_decrement` was called. -/
inductive Back (ι : Type)
  | epoch
  | dropping (cycle p : ι) (children : List ι)
  | garbage

/-- The loops that go around a cycle once. -/
inductive Round
  | redden
  | drop
  | scanRed
  | orange
  deriving DecidableEq, Repr

inductive Control (ι : Type)
  /-- Between `f_epoch` of the threads and the free phase. -/
  | epoch
  /-- `f_decrement_step` on an object, with the rest of `v_scan_stack`. -/
  | release (object : ι) (stack : List ι) (back : Back ι)
  | cycles
  | testing (cycle p : ι) (failed : Bool)
  | refurbish (cycle p : ι)
  | round (round : Round) (cycle p : ι)
  /-- `f_cyclic_decrement` with the references it has still to let go. -/
  | dropping (cycle p : ι) (children : List ι)
  | sweep (cycle p : ι)
  | garbage
  | roots
  | prescan (p : ι)
  | mark (p : ListNode ι) (q : ι)
  | scan (p : ι)
  | collect
  /-- A pass on an object, with the rest of `v_scan_stack`. -/
  | traverse (pass : Pass ι) (object : ι) (stack : List ι)

/-- `cycles` is `v_cycles` through `v_next_cycle`. -/
structure State (ι : Type) where
  heap : Heap ι
  cycles : List ι
  garbage : Option ι
  control : Control ι

/-- What happens next: an increment or a decrement from the queues of a thread,
an allocation, a mutator reviving an object, a turn of the collector with the
references it finds, or the collector leaving the roots to a later round. -/
inductive Action (ι : Type)
  | increment (object : ι)
  | decrement (object : ι)
  | allocate (object : ι)
  | revive (object : ι)
  | tick (report : List ι)
  | skip

namespace Heap

variable {ι : Type} [DecidableEq ι]

def live (heap : Heap ι) (object : ι) : Bool :=
  heap.allocated object && heap.typed object

/-- `f_allocate` and then `f_be`. -/
def allocate (heap : Heap ι) (object : ι) : Heap ι :=
  { heap.setNext (.object object) none with
    allocated := Function.update heap.allocated object true
    typed := Function.update heap.typed object true }

/-- `v_next` where it is an object. -/
def follow (heap : Heap ι) (node : ListNode ι) : Option ι :=
  match heap.next node with
  | some (.object object) => some object
  | _ => none

end Heap

namespace Walk

variable {ι : Type} [DecidableEq ι]

/-- The decrements that letting the references of an object go makes. Each of
them is of a counted reference. -/
def decrementAll (walk : Walk ι) : List ι → Option (Walk ι)
  | [] => some walk
  | child :: children =>
    if walk.heap.live child ∧ walk.heap.count child > 0 then
      (walk.decrementPush child).decrementAll children
    else none

end Walk

namespace Control

variable {ι : Type}

/-- Whether the collector holds `v_object__reviving__mutex`. -/
def locked : Control ι → Bool
  | .testing .. => true
  | .refurbish .. => true
  | .round .redden _ _ => true
  | .round .drop _ _ => true
  | .dropping .. => true
  | .sweep .. => true
  | .release _ _ (.dropping ..) => true
  | _ => false

end Control

namespace State

variable {ι : Type} [DecidableEq ι]

/-- After a call of `f_decrement`. -/
def resume (state : State ι) : Back ι → State ι
  | .epoch => { state with control := .epoch }
  | .dropping cycle p children => { state with control := .dropping cycle p children }
  | .garbage => { state with control := .garbage }

/-- `while (roots->v_next != roots)`, and what follows the loop. -/
def collectMore (state : State ι) : State ι :=
  if state.heap.next .roots = some .roots then
    { state with
      heap := state.heap.setPrevious .roots (some .roots)
      control := .epoch }
  else { state with control := .collect }

/-- `p = p->v_next` in a loop over the roots. -/
def advance (state : State ι) (p : ι) (here : ι → Control ι) (after : Option (State ι)) :
    Option (State ι) :=
  match state.heap.next (.object p) with
  | some .roots => after
  | some (.object q) => some { state with control := here q }
  | none => none

/-- `q = p->v_next` in the loop that marks. -/
def markMore (state : State ι) (p : ListNode ι) : Option (State ι) :=
  match state.heap.next p with
  | some .roots =>
    match state.heap.next .roots with
    | some .roots =>
      some { state with
        heap := state.heap.setPrevious .roots (some .roots)
        control := .epoch }
    | some (.object p) => some { state with control := .scan p }
    | none => none
  | some (.object q) => some { state with control := .mark p q }
  | none => none

/-- `p = p->v_next` in a loop around a cycle. -/
def turn (state : State ι) (cycle p : ι) (here : ι → Control ι) (after : State ι) :
    Option (State ι) :=
  (state.heap.follow (.object p)).map fun q =>
    if q = cycle then after else { state with control := here q }

def decide (state : State ι) (cycle : ι) (failed : Bool) : State ι :=
  if failed then
    { state with
      heap :=
        if state.heap.color cycle = .orange then state.heap.paint cycle .purple
        else state.heap
      control := .refurbish cycle cycle }
  else { state with control := .round .redden cycle cycle }

def test (state : State ι) (cycle p : ι) (failed : Bool) : Option (State ι) := do
  let heap := state.heap
  let q ← heap.follow (.object p)
  if heap.typed q then
    let failed := failed || heap.color q ≠ .orange || heap.cyclic q > 0 || heap.reviving q
    let state := { state with heap := heap.settle q }
    if q = cycle then some (state.decide cycle failed)
    else some { state with control := .testing cycle q failed }
  else
    let heap := (heap.setNext (.object p) (heap.next (.object q))).free q
    let state := { state with heap := heap }
    if q = cycle then
      if p = q then some { state with control := .cycles }
      else some (state.decide p failed)
    else some { state with control := .testing cycle p failed }

/-- One object of a cycle that failed the test. -/
def refurbish (state : State ι) (cycle p : ι) : Option (State ι) := do
  let heap := state.heap
  let q ← heap.follow (.object p)
  let state :=
    if heap.count p = 0 then
      { state with
        heap := heap.setNext (.object p) (state.garbage.map .object)
        garbage := some p }
    else if heap.color p = .purple then { state with heap := heap.append p }
    else { state with heap := (heap.paint p .black).setNext (.object p) none }
  some { state with control := if q = cycle then .cycles else .refurbish cycle q }

/-- `f_cyclic_decrement_push`, the rest of `f_cyclic_decrement`, and the loop. -/
def drop (state : State ι) (cycle p : ι) : List ι → Option (State ι)
  | [] =>
    let state := { state with heap := state.heap.untype p }
    state.turn cycle p (.round .drop cycle) { state with control := .sweep cycle cycle }
  | child :: children =>
    let heap := state.heap
    let here := Control.dropping cycle p children
    if heap.allocated child = false then none
    else if heap.color child = .red then some { state with control := here }
    else if heap.typed child = false ∨ heap.count child = 0 then none
    else if heap.color child = .orange then
      let heap := heap.setCount child (Word.down (heap.count child))
      let heap := heap.setCyclic child (Word.down (heap.cyclic child))
      some { state with heap := heap, control := here }
    else
      let heap := heap.lower child
      if heap.count child > 0 then some { state with heap := heap, control := here }
      else some { state with heap := heap, control := .release child [] (.dropping cycle p children) }

/-- A turn of one of the loops that go around a cycle. -/
def around (state : State ι) (round : Round) (cycle p : ι) (report : List ι) :
    Option (State ι) :=
  match round with
  | .redden =>
    let state := { state with heap := state.heap.paint p .red }
    state.turn cycle p (.round .redden cycle) { state with control := .round .drop cycle cycle }
  | .drop =>
    if state.heap.typed p then some { state with control := .dropping cycle p report } else none
  | .scanRed =>
    if state.heap.typed p ∧ report.all state.heap.live then
      let state := { state with heap := report.foldl Heap.scanRed state.heap }
      state.turn cycle p (.round .scanRed cycle)
        { state with control := .round .orange cycle cycle }
    else none
  | .orange =>
    let state := { state with heap := state.heap.paint p .orange }
    state.turn cycle p (.round .orange cycle)
      { state with cycles := cycle :: state.cycles }.collectMore

/-- The loop over the roots that started a pass goes on. -/
def leave (state : State ι) : Pass ι → Option (State ι)
  | .prescanBlack p => state.advance p .prescan (state.markMore .roots)
  | .markGray q => state.markMore (.object q)
  | .scanBlack p => state.advance p .scan (some { state with control := .collect })
  | .scanGray p => state.advance p .scan (some { state with control := .collect })
  | .collectWhite cycle => some { state with control := .round .scanRed cycle cycle }

/-- The step of a pass on an object, and `f_loop`. -/
def visit (state : State ι) (pass : Pass ι) (object : ι) (stack report : List ι) :
    Option (State ι) :=
  if state.heap.typed object ∧ report.all state.heap.live then
    let walk := pass.step object report ⟨state.heap, stack⟩
    let state := { state with heap := walk.heap }
    match walk.stack with
    | [] => state.leave pass
    | object :: stack => some { state with control := .traverse pass object stack }
  else none

def collect (state : State ι) : Option (State ι) := do
  let heap := state.heap
  let p ← heap.follow .roots
  let heap := heap.setNext .roots (heap.next (.object p))
  if heap.color p = .white then
    some { state with
      heap := heap.collectWhite p
      control := .traverse (.collectWhite p) p [] }
  else some { state with heap := heap.setNext (.object p) none }.collectMore

def tick (state : State ι) (report : List ι) : Option (State ι) :=
  let heap := state.heap
  match state.control with
  | .epoch => some { state with garbage := none, control := .cycles }
  | .release object stack back => do
    guard (heap.typed object)
    let walk ← Walk.decrementAll ⟨heap, stack⟩ report
    let state := { state with heap := walk.heap.release object }
    match walk.stack with
    | [] => some (state.resume back)
    | object :: stack => some { state with control := .release object stack back }
  | .cycles =>
    match state.cycles with
    | [] => some { state with control := .garbage }
    | cycle :: cycles =>
      some { state with cycles := cycles, control := .testing cycle cycle false }
  | .testing cycle p failed => state.test cycle p failed
  | .refurbish cycle p => state.refurbish cycle p
  | .round round cycle p => state.around round cycle p report
  | .dropping cycle p children => state.drop cycle p children
  | .sweep cycle p => do
    let q ← heap.follow (.object p)
    some { state with
      heap := heap.free p
      control := if q = cycle then .cycles else .sweep cycle q }
  | .garbage =>
    match state.garbage with
    | none => some { state with control := .roots }
    | some p =>
      some { state with
        heap := heap.setNext (.object p) none
        garbage := heap.follow (.object p)
        control := .release p [] .garbage }
  | .roots =>
    match heap.next .roots with
    | some .roots => some { state with control := .epoch }
    | some (.object p) => some { state with control := .prescan p }
    | none => none
  | .prescan p =>
    some { state with
      heap := heap.prescanBlack p
      control := .traverse (.prescanBlack p) p [] }
  | .mark p q =>
    if heap.color q = .purple then
      some { state with
        heap := heap.markGray q
        control := .traverse (.markGray q) q [] }
    else
      let heap := (heap.setNext p (heap.next (.object q))).setNext (.object q) none
      { state with heap := heap }.markMore p
  | .scan p =>
    if heap.color p ≠ .gray then state.advance p .scan (some { state with control := .collect })
    else if heap.cyclic p > 0 then
      some { state with
        heap := heap.paint p .black
        control := .traverse (.scanBlack p) p [] }
    else some { state with control := .traverse (.scanGray p) p [] }
  | .collect => state.collect
  | .traverse pass object stack => state.visit pass object stack report

end State

/-- The collector with the mutators around it. -/
def step {ι : Type} [DecidableEq ι] (state : State ι) (action : Action ι) :
    Option (State ι) :=
  let heap := state.heap
  match action with
  | .increment object =>
    match state.control with
    | .epoch =>
      if heap.live object then some { state with heap := heap.increment object } else none
    | _ => none
  | .decrement object =>
    match state.control with
    | .epoch =>
      if heap.live object ∧ heap.count object > 0 then
        let heap := heap.lower object
        if heap.count object > 0 then some { state with heap := heap }
        else some { state with heap := heap, control := .release object [] .epoch }
      else none
    | _ => none
  | .allocate object =>
    if heap.allocated object then none else some { state with heap := heap.allocate object }
  | .revive object =>
    if heap.live object ∧ ¬ state.control.locked then
      some { state with
        heap := { heap with reviving := Function.update heap.reviving object true } }
    else none
  | .tick report => state.tick report
  | .skip =>
    match state.control with
    | .roots => some { state with control := .epoch }
    | _ => none

end Xemmai.Collector
