import Xemmai.Analysis
import Xemmai.Iteration
import Xemmai.Ring

/-!
# The worklists of the flow analysis

`t_scope::f_analyze` as it runs: the vectors of privates grow as blocks mention
them and are reached, and the blocks to visit again are on a ring that is linked
through the blocks themselves. Every move of the two loops is a move of the
iteration in any order, with the nodes of the ring as its queue.
-/

namespace Xemmai.Dataflow

set_option autoImplicit false

/-- `t_block::t_private` -/
structure Private where
  in_ : Bool
  out : Bool
  define : Bool
  use : Bool

def Private.empty : Private := ⟨false, false, false, false⟩

/-- `std::vector::resize` -/
def resize (size : Nat) (privates : List Private) : List Private :=
  privates.take size ++ List.replicate (size - privates.length) Private.empty

/-- What the analysis writes to a `t_block`. -/
structure Facts where
  forward : Bool
  backward : Bool
  privates : List Private

def Facts.empty : Facts := ⟨false, false, []⟩

/-- `t_block` -/
structure TBlock (ι : Type) extends Facts where
  queue : Option ι
  previouses : List ι
  nexts : List ι

/-- `t_block::f_use` -/
def Facts.fUse (i : Nat) (put : Bool) (block : Facts) : Facts :=
  let privates :=
    if block.privates.length < i + 1 then resize (i + 1) block.privates else block.privates
  let x := privates.getD i Private.empty
  if x.out then { block with privates := privates }
  else
    { block with
      privates := privates.set i { x with out := true, define := put, use := !put } }

/-- The loop over the privates of another block, of which the first has the index `i`: those
that it `sends` are marked if they are taken. A private that is sent must be there. -/
def sweep (sends takes : Private → Bool) (mark : Private → Private) :
    Nat → List Private → Bool × List Private → Option (Bool × List Private)
  | _, [], state => some state
  | i, x :: source, (b, privates) =>
      if sends x then
        match privates[i]? with
        | none => none
        | some y =>
            if takes y then sweep sends takes mark (i + 1) source (true, privates.set i (mark y))
            else sweep sends takes mark (i + 1) source (b, privates)
      else sweep sends takes mark (i + 1) source (b, privates)

/-- `t_block::f_forward`. A block may be its own source: a private is read before it is
written. -/
def Facts.fForward (source : List Private) (block : Facts) : Option (Bool × Facts) :=
  let b := !block.forward
  let block :=
    if b then { block with forward := true, privates := resize source.length block.privates }
    else block
  (sweep (·.out) (!·.in_) (fun x => { x with in_ := true, out := true }) 0 source
    (b, block.privates)).map fun (b, privates) => (b, { block with privates := privates })

/-- `t_block::f_backward` -/
def Facts.fBackward (source : List Private) (block : Facts) : Option (Bool × Facts) :=
  let b := !block.backward
  let block := { block with backward := true }
  (sweep (·.use) (fun x => !x.define && !x.use) (fun x => { x with use := true }) 0 source
    (b, block.privates)).map fun (b, privates) => (b, { block with privates := privates })

def forward : Worklist.Follow Facts := fun source target => target.fForward source.privates

def backward : Worklist.Follow Facts := fun source target => target.fBackward source.privates

section Loop

variable {ι : Type} [DecidableEq ι]

/-- `t_block::f_next` -/
def fNext (blocks : ι → TBlock ι) (source target : ι) : ι → TBlock ι :=
  let blocks := Function.update blocks target
    { blocks target with previouses := (blocks target).previouses ++ [source] }
  Function.update blocks source
    { blocks source with nexts := (blocks source).nexts ++ [target] }

/-- Writes the `v_queue` of a block. -/
def setQueue (blocks : ι → TBlock ι) (block : ι) (queue : Option ι) : ι → TBlock ι :=
  Function.update blocks block { blocks block with queue := queue }

/-- `loop` while it does `block`, with the neighbours of it still to come. -/
structure Turn (ι : Type) where
  blocks : ι → TBlock ι
  queue : Option ι
  block : ι
  rest : List ι

inductive Outcome (ι : Type) where
  | undefined
  | finished (blocks : ι → TBlock ι)
  | goes (turn : Turn ι)

namespace Turn

def push (block : ι) (turn : Turn ι) : Turn ι :=
  match turn.queue with
  | some queue =>
      let blocks := setQueue turn.blocks block (turn.blocks queue).queue
      { turn with blocks := setQueue blocks queue (some block), queue := some block }
  | none =>
      { turn with blocks := setQueue turn.blocks block (some block), queue := some block }

/-- Takes the `block` that the tail of the queue links to. -/
def pull (queue block : ι) (turn : Turn ι) : Turn ι :=
  let turn :=
    if block = queue then { turn with queue := none }
    else { turn with blocks := setQueue turn.blocks queue (turn.blocks block).queue }
  { turn with blocks := setQueue turn.blocks block none, block := block }

/-- Carries the facts of `a_block` to one neighbour. -/
def carry (target : ι) (b : Bool) (facts : Facts) (turn : Turn ι) : Turn ι :=
  let turn :=
    { turn with
      blocks := Function.update turn.blocks target { turn.blocks target with toFacts := facts } }
  if b && (turn.blocks target).queue.isNone then turn.push target else turn

/-- One neighbour of `a_block`, or after the last the next block from the queue. -/
def step (do_ : Worklist.Follow Facts) (around : TBlock ι → List ι) (turn : Turn ι) :
    Outcome ι :=
  match turn.rest with
  | target :: rest =>
      match do_ (turn.blocks turn.block).toFacts (turn.blocks target).toFacts with
      | none => .undefined
      | some (b, facts) => .goes { turn.carry target b facts with rest := rest }
  | [] =>
      match turn.queue with
      | none => .finished turn.blocks
      | some queue =>
          match (turn.blocks queue).queue with
          | none => .undefined
          | some block =>
              let turn := turn.pull queue block
              .goes { turn with rest := around (turn.blocks block) }

def first (around : TBlock ι → List ι) (start : ι) (blocks : ι → TBlock ι) : Turn ι :=
  ⟨blocks, none, start, around (blocks start)⟩

def loop (do_ : Worklist.Follow Facts) (around : TBlock ι → List ι) :
    Nat → Turn ι → Option (ι → TBlock ι)
  | 0, _ => none
  | fuel + 1, turn =>
      match turn.step do_ around with
      | .undefined => none
      | .finished blocks => some blocks
      | .goes turn => loop do_ around fuel turn

def Steps (do_ : Worklist.Follow Facts) (around : TBlock ι → List ι)
    (before after : Turn ι) : Prop :=
  before.step do_ around = .goes after

end Turn

end Loop

section Paths

variable {ι : Type}

/-- The path passes the blocks of the list before it ends in the last one. -/
inductive Path (edges : List (ι × ι)) : ι → List ι → ι → Prop
  | nil (block : ι) : Path edges block [] block
  | cons {block next last : ι} {passed : List ι} (edge : (block, next) ∈ edges)
      (path : Path edges next passed last) : Path edges block (block :: passed) last

def Reaches (edges : List (ι × ι)) (block last : ι) : Prop :=
  ∃ passed, Path edges block passed last

theorem Path.snoc {edges : List (ι × ι)} {block last next : ι} {passed : List ι}
    (path : Path edges block passed last) (edge : (last, next) ∈ edges) :
    Path edges block (passed ++ [last]) next := by
  induction path with
  | nil block => exact Path.cons edge (Path.nil next)
  | cons first _ induction => exact Path.cons first (induction edge)

theorem Reaches.refl (edges : List (ι × ι)) (block : ι) : Reaches edges block block :=
  ⟨[], Path.nil block⟩

theorem Reaches.snoc {edges : List (ι × ι)} {block last next : ι}
    (reaches : Reaches edges block last) (edge : (last, next) ∈ edges) :
    Reaches edges block next :=
  let ⟨_, path⟩ := reaches
  ⟨_, path.snoc edge⟩

theorem Reaches.cons {edges : List (ι × ι)} {block last next : ι}
    (edge : (block, next) ∈ edges) (reaches : Reaches edges next last) :
    Reaches edges block last :=
  let ⟨_, path⟩ := reaches
  ⟨_, Path.cons edge path⟩

theorem Path.reverse {edges : List (ι × ι)} {start : ι} {kept : List ι → ι → Prop}
    (nil : kept [] start)
    (snoc : ∀ {passed : List ι} {last next : ι}, Path edges start passed last →
      (last, next) ∈ edges → kept passed last → kept (passed ++ [last]) next)
    {passed : List ι} {last : ι} (path : Path edges start passed last) : kept passed last := by
  have grows : ∀ {block last : ι} {passed : List ι}, Path edges block passed last →
      ∀ {before : List ι}, Path edges start before block → kept before block →
        kept (before ++ passed) last := by
    intro block last passed path
    induction path with
    | nil block =>
        intro before _ now
        rwa [List.append_nil]
    | @cons block next last passed edge _ induction =>
        intro before path now
        have longer := induction (path.snoc edge) (snoc path edge now)
        rwa [List.append_assoc] at longer
  exact grows path (Path.nil start) nil

end Paths

/-- The private `i` has a use that no definition precedes. -/
def Exposed (i : Nat) (mentions : List (Nat × Bool)) : Prop :=
  ∃ before after, mentions = before ++ (i, false) :: after ∧ (i, true) ∉ before

/-- A flow graph: the mentions of the blocks in their order, each with its private and
whether it is a definition. What leads to the end is reached from the entry; otherwise the
backward pass would come to a block whose vector has never been sized. -/
structure Graph (ι : Type) where
  entry : ι
  junction : ι
  size : Nat
  edges : List (ι × ι)
  mentions : ι → List (Nat × Bool)
  bounded : ∀ block, ∀ mention ∈ mentions block, mention.1 < size
  reached : ∀ block, Reaches edges block junction → Reaches edges entry block

namespace Graph

variable {ι : Type} [DecidableEq ι] (graph : Graph ι)

/-- The blocks as `f_flow` leaves them. -/
def drawn : ι → TBlock ι :=
  graph.edges.foldl (fun blocks edge => fNext blocks edge.1 edge.2) fun block =>
    { toFacts := (graph.mentions block).foldl (fun facts mention =>
        facts.fUse mention.1 mention.2) Facts.empty
      queue := none
      previouses := []
      nexts := [] }

def entered : Option (ι → TBlock ι) :=
  ((graph.drawn graph.entry).fForward (List.replicate graph.size Private.empty)).map
    fun (_, facts) =>
      Function.update graph.drawn graph.entry { graph.drawn graph.entry with toFacts := facts }

/-- `t_scope::f_analyze` -/
def fAnalyze (fuel : Nat) : Option (ι → TBlock ι) :=
  (graph.entered.bind fun blocks =>
    Turn.loop forward TBlock.nexts fuel (Turn.first TBlock.nexts graph.entry blocks)).bind
    fun blocks =>
      Turn.loop backward TBlock.previouses fuel
        (Turn.first TBlock.previouses graph.junction blocks)

def ForwardTurn (turn : Turn ι) : Prop :=
  ∃ blocks, graph.entered = some blocks ∧
    Relation.ReflTransGen (Turn.Steps forward TBlock.nexts)
      (Turn.first TBlock.nexts graph.entry blocks) turn

/-- The turns of the second loop, which begins where the first one has ended. -/
def BackwardTurn (turn : Turn ι) : Prop :=
  ∃ last blocks, graph.ForwardTurn last ∧ last.step forward TBlock.nexts = .finished blocks ∧
    Relation.ReflTransGen (Turn.Steps backward TBlock.previouses)
      (Turn.first TBlock.previouses graph.junction blocks) turn

def along (passed : List ι) : List (Nat × Bool) :=
  passed.flatMap graph.mentions

end Graph

section Links

variable {ι : Type} {blocks : ι → TBlock ι}

/-- Where the blocks' `v_queue` lead. -/
def link (blocks : ι → TBlock ι) (block : ι) : ι :=
  (blocks block).queue.getD block

theorem link_of_some {block next : ι} (linked : (blocks block).queue = some next) :
    link blocks block = next := by
  rw [link, linked, Option.getD_some]

variable [DecidableEq ι]

theorem link_update (block : ι) (written : TBlock ι) :
    link (Function.update blocks block written) =
      Function.update (link blocks) block (written.queue.getD block) := by
  funext other
  by_cases same : other = block
  · subst same
    rw [link, Function.update_self, Function.update_self]
  · rw [link, Function.update_of_ne same, Function.update_of_ne same, link]

theorem setQueue_keeps {β : Type} {field : TBlock ι → β}
    (keeps : ∀ (x : TBlock ι) (queue : Option ι), field { x with queue := queue } = field x)
    (block : ι) (queue : Option ι) (other : ι) :
    field (setQueue blocks block queue other) = field (blocks other) := by
  unfold setQueue
  by_cases same : other = block
  · rw [same, Function.update_self, keeps]
  · rw [Function.update_of_ne same]

@[simp] theorem setQueue_facts (block : ι) (queue : Option ι) (other : ι) :
    (setQueue blocks block queue other).toFacts = (blocks other).toFacts :=
  setQueue_keeps (fun _ _ => rfl) block queue other

@[simp] theorem setQueue_previouses (block : ι) (queue : Option ι) (other : ι) :
    (setQueue blocks block queue other).previouses = (blocks other).previouses :=
  setQueue_keeps (fun _ _ => rfl) block queue other

@[simp] theorem setQueue_nexts (block : ι) (queue : Option ι) (other : ι) :
    (setQueue blocks block queue other).nexts = (blocks other).nexts :=
  setQueue_keeps (fun _ _ => rfl) block queue other

theorem setQueue_queue (block : ι) (queue : Option ι) (other : ι) :
    (setQueue blocks block queue other).queue =
      if other = block then queue else (blocks other).queue := by
  unfold setQueue
  by_cases same : other = block
  · rw [same, Function.update_self, if_pos rfl]
  · rw [Function.update_of_ne same, if_neg same]

theorem link_setQueue (block : ι) (queue : Option ι) :
    link (setQueue blocks block queue) =
      Function.update (link blocks) block (queue.getD block) :=
  link_update block _

theorem link_facts (block : ι) (facts : Facts) :
    link (Function.update blocks block { blocks block with toFacts := facts }) = link blocks := by
  rw [link_update]
  exact Function.update_eq_self block (link blocks)

end Links

namespace Turn

variable {ι : Type} {drawn : ι → TBlock ι} {turn : Turn ι} {visit : Worklist.Visit ι Facts}

/-- The turn is that of a visit: the ring holds the queue, the blocks that are on it are those
with a `v_queue`, and the rest of a block is as it was drawn. -/
structure Shows (drawn : ι → TBlock ι) (turn : Turn ι) (visit : Worklist.Visit ι Facts) :
    Prop where
  frame : ∀ block, (turn.blocks block).toFacts = visit.data block ∧
    (turn.blocks block).previouses = (drawn block).previouses ∧
    (turn.blocks block).nexts = (drawn block).nexts
  holds : Ring.Holds (link turn.blocks) turn.queue visit.queue
  marked : ∀ block, (turn.blocks block).queue.isSome = true ↔ block ∈ visit.queue
  block : turn.block = visit.node
  rest : turn.rest = visit.rest

theorem Shows.linked (shows_ : Shows drawn turn visit) {block : ι} (member : block ∈ visit.queue) :
    (turn.blocks block).queue = some (link turn.blocks block) := by
  obtain ⟨next, linked⟩ := Option.isSome_iff_exists.mp ((shows_.marked block).mpr member)
  rw [linked, link_of_some linked]

variable [DecidableEq ι]

theorem Shows.push (shows_ : Shows drawn turn visit) {block : ι} (fresh : block ∉ visit.queue) :
    Shows drawn (turn.push block) { visit with queue := visit.queue ++ [block] } := by
  have pushed := shows_.holds.push fresh
  unfold Turn.push
  cases is : turn.queue with
  | none =>
      rw [is] at pushed
      have nothing : visit.queue = [] := Ring.Holds.of_none (is ▸ shows_.holds)
      refine ⟨fun other => ?_, ?_, fun other => ?_, shows_.block, shows_.rest⟩
      · simpa using shows_.frame other
      · rw [link_setQueue]
        exact pushed
      · have before := shows_.marked other
        rw [nothing] at before
        rw [setQueue_queue, nothing]
        by_cases equal : other = block <;> simp [equal, before]
  | some last =>
      rw [is] at pushed
      have among : last ∈ visit.queue := List.mem_of_getLast? (is ▸ shows_.holds.last)
      refine ⟨fun other => ?_, ?_, fun other => ?_, shows_.block, shows_.rest⟩
      · simpa using shows_.frame other
      · rw [link_setQueue, link_setQueue, shows_.linked among]
        exact pushed
      · have before := shows_.marked other
        rw [setQueue_queue, setQueue_queue]
        by_cases final : other = last
        · simp [final, among]
        · rw [if_neg final]
          by_cases equal : other = block
          · simp [equal, shows_.linked among]
          · simp [equal, before]

theorem Shows.carry (shows_ : Shows drawn turn visit) (target : ι) (b : Bool) (facts : Facts) :
    Shows drawn (turn.carry target b facts)
      { visit with
        data := Function.update visit.data target facts
        queue := Worklist.enqueue b target visit.queue } := by
  let written : Turn ι :=
    { turn with
      blocks := Function.update turn.blocks target { turn.blocks target with toFacts := facts } }
  have queues : ∀ other, (written.blocks other).queue = (turn.blocks other).queue := by
    intro other
    by_cases equal : other = target
    · subst equal
      simp [written]
    · simp [written, Function.update_of_ne equal]
  have before : Shows drawn written
      { visit with data := Function.update visit.data target facts } := by
    refine ⟨fun other => ?_, ?_, fun other => ?_, shows_.block, shows_.rest⟩
    · by_cases equal : other = target
      · subst equal
        simpa [written] using (shows_.frame other).2
      · simpa [written, Function.update_of_ne equal] using shows_.frame other
    · rw [link_facts]
      exact shows_.holds
    · rw [queues]
      exact shows_.marked other
  have known : (turn.blocks target).queue.isNone = true ↔ target ∉ visit.queue := by
    rw [← shows_.marked target, Option.isNone_iff_eq_none, Option.isSome_iff_ne_none, not_not]
  have carried : turn.carry target b facts =
      if b && (turn.blocks target).queue.isNone then written.push target else written := by
    rw [← queues target]
    rfl
  rw [carried, Worklist.enqueue]
  by_cases fresh : target ∉ visit.queue
  · cases b with
    | true => simpa [known.mpr fresh, fresh] using before.push fresh
    | false => simpa using before
  · have absent : (turn.blocks target).queue.isNone = false :=
      Bool.eq_false_iff.mpr fun none => fresh (known.mp none)
    simpa [absent, not_not.mp fresh] using before

theorem Shows.pull (shows_ : Shows drawn turn visit) {last : ι} (is : turn.queue = some last) :
    ∃ next others, visit.queue = next :: others ∧ (turn.blocks last).queue = some next ∧
      Shows drawn (turn.pull last next) { visit with queue := others, node := next } := by
  have holds : Ring.Holds (link turn.blocks) (some last) visit.queue := is ▸ shows_.holds
  have among : last ∈ visit.queue := holds.last_mem
  cases shape : visit.queue with
  | nil =>
      rw [shape] at among
      exact absurd among List.not_mem_nil
  | cons next others =>
      rw [shape] at holds among
      have leads : link turn.blocks last = next := (holds.leads last rfl).1
      have linked : (turn.blocks last).queue = some next := by
        rw [shows_.linked (shape ▸ among), leads]
      obtain ⟨fresh, _⟩ := List.nodup_cons.mp holds.nodup
      have whole : Ring.Holds (link turn.blocks) (some last) ([] ++ next :: others) := holds
      have unlinked := whole.unlink
      have before : Ring.before [] last = last := rfl
      rw [before, List.nil_append] at unlinked
      have marked : ∀ other, (turn.blocks other).queue.isSome = true ↔
          other = next ∨ other ∈ others := by
        intro other
        rw [shows_.marked, shape, List.mem_cons]
      refine ⟨next, others, rfl, linked, ?_⟩
      unfold Turn.pull
      by_cases alone : next = last
      · have nothing : others = [] := by
          by_contra some_
          have back := holds.last
          rw [List.getLast?_cons_of_ne_nil some_] at back
          exact fresh (alone ▸ List.mem_of_getLast? back)
        rw [if_pos alone]
        refine ⟨fun other => ?_, ?_, fun other => ?_, rfl, shows_.rest⟩
        · simpa using shows_.frame other
        · rw [nothing]
          exact Ring.Holds.nil _
        · rw [setQueue_queue]
          by_cases equal : other = next <;> simp [equal, nothing, marked]
      · have late : last ∈ others := (List.mem_cons.mp among).resolve_left (Ne.symm alone)
        rw [if_neg (List.ne_nil_of_mem late)] at unlinked
        have first : (turn.blocks next).queue = some (link turn.blocks next) :=
          shows_.linked (shape ▸ List.mem_cons_self)
        rw [if_neg alone]
        refine ⟨fun other => ?_, ?_, fun other => ?_, rfl, shows_.rest⟩
        · simpa using shows_.frame other
        · dsimp only
          rw [is]
          refine unlinked.congr fun other member => ?_
          have different : other ≠ next := fun equal => fresh (equal ▸ member)
          rw [link_setQueue, link_setQueue, Function.update_of_ne different, first,
            Option.getD_some]
        · rw [setQueue_queue, setQueue_queue]
          by_cases equal : other = next
          · simpa [equal] using fresh
          · by_cases final : other = last
            · simpa [final, Ne.symm alone, first] using late
            · simp [equal, final, marked]

section Loop

variable (do_ : Worklist.Follow Facts) {around : TBlock ι → List ι}
variable (only : ∀ {x y : TBlock ι}, x.previouses = y.previouses → x.nexts = y.nexts →
  around x = around y)

include only

theorem Shows.step (shows_ : Shows drawn turn visit) :
    match turn.step do_ around with
    | .undefined => ¬visit.Over ∧
        ∀ after, ¬Worklist.Moves do_ (fun block => around (drawn block)) visit after
    | .finished blocks => visit.Over ∧ blocks = turn.blocks
    | .goes next => ∃ after,
        Worklist.Moves do_ (fun block => around (drawn block)) visit after ∧
          Shows drawn next after := by
  have facts (block : ι) := (shows_.frame block).1
  cases coming : turn.rest with
  | cons target rest =>
      have left : visit.rest = target :: rest := shows_.rest.symm.trans coming
      have followed : do_ (turn.blocks turn.block).toFacts (turn.blocks target).toFacts =
          do_ (visit.data visit.node) (visit.data target) := by
        rw [facts, facts, shows_.block]
      rcases visit with ⟨data, queue, node, _⟩
      obtain rfl := left
      simp only [Turn.step, coming, followed]
      cases done : do_ (data node) (data target) with
      | none =>
          refine ⟨fun ended => List.cons_ne_nil _ _ ended.1, fun after move => ?_⟩
          cases move with
          | follow same =>
              rw [done] at same
              cases same
      | some result =>
          obtain ⟨b, written⟩ := result
          refine ⟨_, Worklist.Moves.follow done, ?_⟩
          have carried := shows_.carry target b written
          exact ⟨carried.frame, carried.holds, carried.marked, carried.block, rfl⟩
  | nil =>
      have left : visit.rest = [] := shows_.rest.symm.trans coming
      cases is : turn.queue with
      | none =>
          simp only [Turn.step, coming, is]
          exact ⟨⟨left, Ring.Holds.of_none (is ▸ shows_.holds)⟩, trivial⟩
      | some last =>
          obtain ⟨next, others, shape, linked, pulled⟩ := shows_.pull is
          rcases visit with ⟨data, queue, node, _⟩
          obtain rfl := left
          obtain rfl := shape
          simp only [Turn.step, coming, is, linked]
          have neighbours : around ((turn.pull last next).blocks next) = around (drawn next) :=
            only (pulled.frame next).2.1 (pulled.frame next).2.2
          refine ⟨⟨data, (next :: others).erase next, next, around (drawn next)⟩,
            Worklist.Moves.take List.mem_cons_self (List.Perm.refl _), ?_⟩
          rw [List.erase_cons_head]
          exact ⟨pulled.frame, pulled.holds, pulled.marked, pulled.block, neighbours⟩

/-- The loop returns if the moves come to an end and none is undefined. -/
theorem Shows.loop (shows_ : Shows drawn turn visit)
    (acc : Acc (fun after before =>
      Worklist.Moves do_ (fun block => around (drawn block)) before after) visit)
    (proceeds : ∀ after,
      Relation.ReflTransGen (Worklist.Moves do_ fun block => around (drawn block)) visit after →
      ¬after.Over →
        ∃ further, Worklist.Moves do_ (fun block => around (drawn block)) after further) :
    ∃ final after, Shows drawn final after ∧ after.Over ∧
      Relation.ReflTransGen (Worklist.Moves do_ fun block => around (drawn block)) visit after ∧
      ∃ fuel, ∀ more, fuel ≤ more → turn.loop do_ around more = some final.blocks := by
  induction acc generalizing turn with
  | intro visit _ induction =>
      have spec := shows_.step do_ only
      cases stepped : turn.step do_ around with
      | undefined =>
          rw [stepped] at spec
          obtain ⟨further, move⟩ := proceeds visit Relation.ReflTransGen.refl spec.1
          exact absurd move (spec.2 further)
      | finished blocks =>
          rw [stepped] at spec
          refine ⟨turn, visit, shows_, spec.1, Relation.ReflTransGen.refl, 1, fun more enough => ?_⟩
          obtain ⟨fuel, rfl⟩ := Nat.exists_eq_add_of_le' enough
          simp only [Turn.loop, stepped, spec.2]
      | goes next =>
          rw [stepped] at spec
          obtain ⟨after, move, shown⟩ := spec
          obtain ⟨final, last, shown, ended, moves, fuel, returns⟩ :=
            induction after move shown fun further moves =>
              proceeds further (Relation.ReflTransGen.head move moves)
          refine ⟨final, last, shown, ended, Relation.ReflTransGen.head move moves, fuel + 1,
            fun more enough => ?_⟩
          obtain ⟨extra, rfl⟩ := Nat.exists_eq_add_of_le enough
          rw [Nat.add_right_comm]
          simp only [Turn.loop, stepped]
          exact returns (fuel + extra) (Nat.le_add_right _ _)

omit [DecidableEq ι] in
theorem Shows.again (shows_ : Shows drawn turn visit) (ended : visit.Over) (start : ι) :
    Shows drawn (Turn.first around start turn.blocks)
      ⟨visit.data, [], start, around (drawn start)⟩ where
  frame := shows_.frame
  holds := Ring.Holds.nil _
  marked block := by
    rw [← ended.2]
    exact shows_.marked block
  block := rfl
  rest := only (shows_.frame start).2.1 (shows_.frame start).2.2

theorem Shows.steps (shows_ : Shows drawn turn visit) {later : Turn ι}
    (steps : Relation.ReflTransGen (Turn.Steps do_ around) turn later) :
    ∃ after, Relation.ReflTransGen
        (Worklist.Moves do_ fun block => around (drawn block)) visit after ∧
      Shows drawn later after := by
  induction steps with
  | refl => exact ⟨visit, Relation.ReflTransGen.refl, shows_⟩
  | @tail before later _ step induction =>
      obtain ⟨middle, moves, shown⟩ := induction
      have spec := shown.step do_ only
      rw [show before.step do_ around = .goes later from step] at spec
      obtain ⟨after, move, last⟩ := spec
      exact ⟨after, moves.tail move, last⟩

end Loop

/-- The queue of a turn of the loop that began with `start`: the ring holds no block twice, the
blocks on it are those with a `v_queue`, and a block that has been seen and has a neighbour
that it would change is on it, unless this is its turn and the neighbour is still to come. -/
def Kept (do_ : Worklist.Follow Facts) (around : TBlock ι → List ι) (seen : Facts → Bool)
    (start : ι) (turn : Turn ι) : Prop :=
  ∃ nodes, Ring.Holds (link turn.blocks) turn.queue nodes ∧
    (∀ block, (turn.blocks block).queue.isSome = true ↔ block ∈ nodes) ∧
    ∀ block, block = start ∨ seen (turn.blocks block).toFacts = true →
      ∀ target ∈ around (turn.blocks block),
        (∃ facts, do_ (turn.blocks block).toFacts (turn.blocks target).toFacts =
          some (true, facts)) →
        block ∈ nodes ∨ (block = turn.block ∧ target ∈ turn.rest)

theorem Shows.kept {do_ : Worklist.Follow Facts} {around : TBlock ι → List ι}
    (only : ∀ {x y : TBlock ι}, x.previouses = y.previouses → x.nexts = y.nexts →
      around x = around y)
    {σ : Type} {transfer : Worklist.Transfer σ} {view : Facts → σ} {seen : σ → Bool} {start : ι}
    {ready fit : ι → Facts → Prop}
    (viewed : Worklist.Viewed do_ transfer view (fun block => around (drawn block)) ready fit)
    (shows_ : Shows drawn turn visit) (every : ∀ block, fit block (visit.data block))
    (prepared : ∀ block, Worklist.Active seen start (visit.map view).data block →
      ready block (visit.data block))
    (pending : Worklist.Pending transfer seen (fun block => around (drawn block)) start
      (visit.map view)) :
    turn.Kept do_ around (fun facts => seen (view facts)) start := by
  refine ⟨visit.queue, shows_.holds, shows_.marked, ?_⟩
  intro block active target member changes
  obtain ⟨facts, followed⟩ := changes
  rw [(shows_.frame block).1] at active followed
  rw [(shows_.frame target).1] at followed
  rw [only (shows_.frame block).2.1 (shows_.frame block).2.2] at member
  by_cases queued : block ∈ visit.queue
  · exact Or.inl queued
  · rcases pending.settled block active queued target member with settled | ⟨here, late⟩
    · obtain ⟨written, same, _⟩ := viewed.follows member (prepared block active) (every target)
      have still : (transfer (view (visit.data block)) (view (visit.data target))).1 = false :=
        settled
      rw [same, still] at followed
      cases followed
    · refine Or.inr ⟨here.trans shows_.block.symm, ?_⟩
      rw [shows_.rest]
      exact late

end Turn

end Xemmai.Dataflow
