import Xemmai.Ending

/-!
# What becomes of a candidate cycle

The free phase on one cycle, from the test of its head until the next cycle is looked for:
where each of its members is then, what has been freed, and when the cycle has been freed as
a whole.
-/

namespace Xemmai.Collector

set_option autoImplicit false

variable {ι : Type} [DecidableEq ι]

/-! ### What is freed -/

def Heap.stock (heap : Heap ι) (object : ι) : Nat := if heap.allocated object then 1 else 0

def Action.made (object : ι) : Action ι → Nat
  | .allocate other => if object = other then 1 else 0
  | _ => 0

def allocations (object : ι) (actions : List (Action ι)) : Nat :=
  (actions.map (Action.made object)).sum

/-- What has been freed was there or has been made. -/
structure Ledger (heap heap' : Heap ι) (gone : List ι) (made : ι → Nat) : Prop where
  freed : heap'.freed = gone ++ heap.freed
  balance : ∀ object, gone.count object + heap'.stock object = heap.stock object + made object

namespace Ledger

variable {heap heap' heap'' : Heap ι} {gone gone' : List ι} {made made' : ι → Nat}

theorem same (freed : heap'.freed = heap.freed) (allocated : heap'.allocated = heap.allocated) :
    Ledger heap heap' [] fun _ => 0 where
  freed := freed
  balance object := by
    unfold Heap.stock
    rw [allocated, List.count_nil, Nat.zero_add, Nat.add_zero]

theorem trans (ledger : Ledger heap heap' gone made) (later : Ledger heap' heap'' gone' made') :
    Ledger heap heap'' (gone' ++ gone) fun object => made object + made' object where
  freed := by rw [later.freed, ledger.freed, List.append_assoc]
  balance object := by
    have first := ledger.balance object
    have second := later.balance object
    rw [List.count_append]
    omega

theorem free {object : ι} (held : heap.allocated object = true)
    (freed : heap'.freed = object :: heap.freed)
    (allocated : heap'.allocated = Function.update heap.allocated object false) :
    Ledger heap heap' [object] fun _ => 0 where
  freed := freed
  balance other := by
    unfold Heap.stock
    simp only [allocated, Function.update_apply, List.count_singleton]
    by_cases equal : other = object
    · subst equal
      simp [held]
    · simp [equal, Ne.symm equal]

theorem allocate {object : ι} (free : heap.allocated object = false) :
    Ledger heap (heap.allocate object) [] (Action.made · (.allocate object)) where
  freed := rfl
  balance other := by
    unfold Heap.stock Heap.allocate Action.made
    simp only [Function.update_apply, List.count_nil]
    by_cases equal : other = object
    · subst equal
      simp [free]
    · simp [equal]

theorem release {object : ι} (held : heap.allocated object = true) :
    ∃ gone, Ledger heap (heap.release object) gone fun _ => 0 := by
  unfold Heap.release
  simp only
  split
  · exact ⟨_, free held rfl rfl⟩
  · split
    · exact ⟨_, same rfl rfl⟩
    · exact ⟨_, free held rfl rfl⟩

theorem lower (heap : Heap ι) (object : ι) : Ledger heap (heap.lower object) [] fun _ => 0 := by
  obtain ⟨next, previous, color, equal⟩ := heap.lower_links object
  rw [equal]
  exact same rfl rfl

theorem decrementAll {report : List ι} {walk after : Walk ι}
    (lets : walk.decrementAll report = some after) :
    Ledger walk.heap after.heap [] fun _ => 0 := by
  induction report generalizing walk with
  | nil =>
      obtain rfl := Option.some.inj lets
      exact same rfl rfl
  | cons child report induction =>
      rw [Walk.decrementAll] at lets
      split at lets
      · have pushed : (walk.decrementPush child).heap = walk.heap.lower child := by
          unfold Walk.decrementPush
          simp only
          split <;> rfl
        have later := induction lets
        rw [pushed] at later
        exact (lower walk.heap child).trans later
      · cases lets

end Ledger

/-! ### The stages -/

def Layout.Member (layout : Layout ι) (object : ι) : Prop :=
  .object object ∈ Strand.all layout.current

/-- An object that does not fail the test of its cycle. -/
def Heap.Passes (heap : Heap ι) (object : ι) : Prop :=
  heap.color object = .orange ∧ heap.cyclic object = 0 ∧ heap.reviving object = false

/-- The test of a cycle, `unseen` before its head and `seen` behind it. -/
structure Probing (heap₀ : Heap ι) (layout₀ : Layout ι) (gone : List ι) (heap : Heap ι)
    (cycle : ι) (failed : Bool) (unseen seen : List (ListNode ι)) : Prop where
  members : ∀ object, layout₀.Member object →
    .object object ∈ unseen ++ .object cycle :: seen ∨
      object ∈ gone ∧ heap₀.typed object = false
  kept : ∀ object, .object object ∈ unseen ++ .object cycle :: seen → object ∉ gone ∧
    heap.typed object = heap₀.typed object ∧ heap.color object = heap₀.color object ∧
    heap.cyclic object = heap₀.cyclic object
  fresh : ∀ object, .object object ∈ unseen ++ [.object cycle] →
    heap.reviving object = heap₀.reviving object
  typed : ∀ object, .object object ∈ seen → heap.typed object = true
  passed : failed = false → ∀ object, .object object ∈ seen → heap₀.Passes object

/-- Where an object is that is not on its cycle any more. -/
inductive Placed (heap₀ : Heap ι) (gone : List ι) (heap : Heap ι) (layout : Layout ι)
    (object : ι) : Prop
  | freed (member : object ∈ gone) (untyped : heap₀.typed object = false)
  | garbage (kept : object ∉ gone) (member : .object object ∈ Strand.all layout.garbage)
  | root (kept : object ∉ gone) (member : .object object ∈ layout.roots)
      (purple : heap.color object = .purple)
  | loose (kept : object ∉ gone) (apart : .object object ∉ Strand.all layout.strands)
      (held : heap.allocated object = true) (black : heap.color object = .black)

/-- Where the members are while a cycle is refurbished. -/
def Refurbishing (heap₀ : Heap ι) (layout₀ : Layout ι) (gone : List ι) (heap : Heap ι)
    (layout : Layout ι) : Prop :=
  ∀ object, layout₀.Member object →
    layout.Member object ∧ object ∉ gone ∨ Placed heap₀ gone heap layout object

structure Freeing (heap₀ : Heap ι) (layout₀ : Layout ι) (gone : List ι) (layout : Layout ι) :
    Prop where
  passed : ∀ object, layout₀.Member object → heap₀.typed object = true → heap₀.Passes object
  members : ∀ object, layout₀.Member object → layout.Member object ∨ object ∈ gone

namespace Control

def frees : Control ι → Bool
  | round .redden _ _ => true
  | round .drop _ _ => true
  | dropping .. => true
  | release _ _ (.dropping ..) => true
  | sweep .. => true
  | _ => false

end Control

inductive Stage (heap₀ : Heap ι) (layout₀ : Layout ι) (gone : List ι) (state : State ι)
    (layout : Layout ι) : Prop
  | testing {cycle p : ι} {failed : Bool} {nodes unseen seen : List (ListNode ι)}
      (control : state.control = .testing cycle p failed)
      (place : layout.current = [⟨.object p, nodes, some (.object p)⟩])
      (around : nodes ++ [.object p] = unseen ++ .object cycle :: seen)
      (tests : Probing heap₀ layout₀ gone state.heap cycle failed unseen seen)
  | refurbishing (control : state.control = .cycles ∨
        ∃ cycle p, state.control = .refurbish cycle p)
      (places : Refurbishing heap₀ layout₀ gone state.heap layout)
  | freeing (control : state.control = .cycles ∨ state.control.frees = true)
      (frees : Freeing heap₀ layout₀ gone layout)

/-! ### The test of a cycle -/

section

variable {heap₀ heap : Heap ι} {layout₀ layout : Layout ι} {gone : List ι} {cycle p : ι}
  {failed : Bool} {unseen seen nodes : List (ListNode ι)} {cycles : List ι} {garbage : Option ι}

omit [DecidableEq ι] in
theorem member_ring (place : layout.current = [⟨.object p, nodes, some (.object p)⟩])
    (around : nodes ++ [.object p] = unseen ++ .object cycle :: seen) (object : ι) :
    layout.Member object ↔ .object object ∈ unseen ++ .object cycle :: seen := by
  unfold Layout.Member
  rw [place, ← around]
  simp only [Strand.all_cons, Strand.all_nil, Strand.members_mk, List.append_nil, List.mem_cons,
    List.mem_append, List.not_mem_nil, or_false]
  exact or_comm

omit [DecidableEq ι] in
theorem Listed.held (listed : Listed heap layout) {object : ι} (member : layout.Member object) :
    heap.allocated object = true :=
  listed.owned object (Layout.mem_strands.mpr (.inr (.inr (Layout.mem_others.mpr (.inl member)))))

omit [DecidableEq ι] in
theorem Probing.congr {heap' : Heap ι}
    (tests : Probing heap₀ layout₀ gone heap cycle failed unseen seen)
    (same : ∀ object, .object object ∈ unseen ++ .object cycle :: seen →
      heap'.typed object = heap.typed object ∧ heap'.color object = heap.color object ∧
      heap'.cyclic object = heap.cyclic object ∧ heap'.reviving object = heap.reviving object) :
    Probing heap₀ layout₀ gone heap' cycle failed unseen seen where
  members := tests.members
  kept object member := by
    obtain ⟨typed, color, cyclic, _⟩ := same object member
    rw [typed, color, cyclic]
    exact tests.kept object member
  fresh object member := by
    have inside : ListNode.object object ∈ unseen ++ .object cycle :: seen := by
      simp only [List.mem_append, List.mem_cons] at member ⊢
      tauto
    rw [(same object inside).2.2.2]
    exact tests.fresh object member
  typed object member := by
    rw [(same object (List.mem_append_right _ (List.mem_cons_of_mem _ member))).1]
    exact tests.typed object member
  passed := tests.passed

omit [DecidableEq ι] in
theorem Probing.pass (tests : Probing heap₀ layout₀ gone heap cycle failed unseen seen)
    {object : ι} (here : .object object ∈ unseen ++ [.object cycle])
    (color : heap.color object = .orange) (cyclic : heap.cyclic object = 0)
    (reviving : heap.reviving object = false) : heap₀.Passes object := by
  have inside : ListNode.object object ∈ unseen ++ .object cycle :: seen := by
    simp only [List.mem_append, List.mem_cons] at here ⊢
    tauto
  obtain ⟨_, _, sameColor, sameCyclic⟩ := tests.kept object inside
  rw [sameColor] at color
  rw [sameCyclic] at cyclic
  rw [tests.fresh object here] at reviving
  exact ⟨color, cyclic, reviving⟩

omit [DecidableEq ι] in
/-- The first of what is to be seen is freed, being no instance of a type that is left. -/
theorem Probing.remain (tests : Probing heap₀ layout₀ gone heap cycle failed unseen seen)
    {q : ι} {rest : List (ListNode ι)} (around : unseen ++ .object cycle :: seen = .object q :: rest)
    (untyped : heap.typed q = false) (object : ι) (member : layout₀.Member object) :
    .object object ∈ rest ∨ object ∈ q :: gone ∧ heap₀.typed object = false := by
  rcases tests.members object member with here | ⟨freed, dead⟩
  · rw [around] at here
    rcases List.mem_cons.mp here with same | here
    · cases same
      have first : ListNode.object q ∈ unseen ++ .object cycle :: seen := by
        rw [around]
        exact List.mem_cons_self
      refine .inr ⟨List.mem_cons_self, ?_⟩
      rw [← (tests.kept q first).2.1]
      exact untyped
    · exact .inl here
  · exact .inr ⟨List.mem_cons_of_mem _ freed, dead⟩

omit [DecidableEq ι] in
theorem Probing.stays (tests : Probing heap₀ layout₀ gone heap cycle failed unseen seen)
    {q : ι} {rest : List (ListNode ι)} (around : unseen ++ .object cycle :: seen = .object q :: rest)
    (fresh : .object q ∉ rest) {object : ι} (member : .object object ∈ rest) :
    object ∉ q :: gone := by
  have inside : ListNode.object object ∈ unseen ++ .object cycle :: seen := by
    rw [around]
    exact List.mem_cons_of_mem _ member
  intro freed
  rcases List.mem_cons.mp freed with rfl | freed
  · exact fresh member
  · exact (tests.kept object inside).1 freed

omit [DecidableEq ι] in
theorem passes_of_test {q : ι}
    (pass : (failed || heap.color q ≠ .orange || heap.cyclic q > 0 || heap.reviving q) = false) :
    failed = false ∧ heap.color q = .orange ∧ heap.cyclic q = 0 ∧ heap.reviving q = false := by
  simp only [Bool.or_eq_false_iff, decide_eq_false_iff_not, not_not, Nat.not_lt,
    Nat.le_zero] at pass
  exact ⟨pass.1.1.1, pass.1.1.2, pass.1.2, pass.2⟩

theorem stage_decide {control : Control ι} {first : ι}
    (members : ∀ object, layout₀.Member object →
      layout.Member object ∨ object ∈ gone ∧ heap₀.typed object = false)
    (kept : ∀ object, layout.Member object → object ∉ gone)
    (passed : failed = false → ∀ object, layout.Member object → heap₀.Passes object) :
    Stage heap₀ layout₀ gone (State.decide ⟨heap, cycles, garbage, control⟩ first failed)
      layout := by
  unfold State.decide
  cases failed with
  | true =>
      rw [if_pos rfl]
      apply Stage.refurbishing
      · exact .inr ⟨first, first, rfl⟩
      · intro object member
        rcases members object member with inside | ⟨freed, untyped⟩
        · exact .inl ⟨inside, kept object inside⟩
        · exact .inr (.freed freed untyped)
  | false =>
      rw [if_neg Bool.false_ne_true]
      apply Stage.freeing
      · exact .inr rfl
      · constructor
        · intro object member typed
          rcases members object member with inside | ⟨_, untyped⟩
          · exact passed rfl object inside
          · rw [typed] at untyped
            cases untyped
        · intro object member
          rcases members object member with inside | ⟨freed, _⟩
          · exact .inl inside
          · exact .inr freed

theorem decide_ledger (state : State ι) (first : ι) (failed : Bool) :
    (state.decide first failed).heap.freed = state.heap.freed ∧
      (state.decide first failed).heap.allocated = state.heap.allocated := by
  unfold State.decide
  split
  · simp only
    split
    · exact ⟨rfl, rfl⟩
    · exact ⟨rfl, rfl⟩
  · exact ⟨rfl, rfl⟩

omit [DecidableEq ι] in
theorem member_single (layout : Layout ι) (first : ι) (nodes : List (ListNode ι)) (object : ι) :
    ({ layout with current := [⟨.object first, nodes, some (.object first)⟩] } :
      Layout ι).Member object ↔ .object object ∈ .object first :: nodes := by
  unfold Layout.Member
  simp only [Strand.all_cons, Strand.all_nil, Strand.members_mk, List.append_nil]

theorem stage_test {after : State ι}
    (sound : Sound ⟨heap, cycles, garbage, .testing cycle p failed⟩ layout)
    (place : layout.current = [⟨.object p, nodes, some (.object p)⟩])
    (around : nodes ++ [.object p] = unseen ++ .object cycle :: seen)
    (tests : Probing heap₀ layout₀ gone heap cycle failed unseen seen)
    (taken : State.test ⟨heap, cycles, garbage, .testing cycle p failed⟩ cycle p failed =
      some after) :
    ∃ layout' gone', Sound after layout' ∧ Stage heap₀ layout₀ (gone' ++ gone) after layout' ∧
      Ledger heap after.heap gone' fun _ => 0 := by
  have ring := member_ring place around
  have nodup := nodup_ring sound.listed place around
  obtain ⟨layout', kept, tested⟩ := test_layout sound place around tests.typed taken
  cases tested with
  | @pass q unseen seen rest typed around' =>
      refine ⟨_, [], kept, ?_, Ledger.same rfl rfl⟩
      have fresh : ListNode.object q ∉ unseen ++ .object cycle :: seen :=
        (List.nodup_cons.mp nodup).1
      have order : ∀ node, node ∈ .object q :: unseen ++ .object cycle :: seen ↔
          node ∈ unseen ++ .object cycle :: (seen ++ [.object q]) := by
        intro node
        simp only [List.cons_append, List.mem_cons, List.mem_append, List.not_mem_nil, or_false]
        tauto
      apply Stage.testing rfl rfl around'
      constructor
      · intro object member
        rw [← order]
        exact tests.members object member
      · intro object member
        rw [← order] at member
        exact tests.kept object member
      · intro object member
        have other : object ≠ q := by
          rintro rfl
          apply fresh
          simp only [List.mem_append, List.mem_cons] at member ⊢
          tauto
        have settled : (heap.settle q).reviving object = heap.reviving object :=
          Function.update_of_ne other _ _
        rw [settled]
        exact tests.fresh object (List.mem_cons_of_mem _ member)
      · intro object member
        rcases List.mem_append.mp member with earlier | last
        · exact tests.typed object earlier
        · cases List.mem_singleton.mp last
          exact typed
      · intro outcome object member
        obtain ⟨unfailed, color, cyclic, reviving⟩ := passes_of_test outcome
        rcases List.mem_append.mp member with earlier | last
        · exact tests.passed unfailed object earlier
        · cases List.mem_singleton.mp last
          exact tests.pass List.mem_cons_self color cyclic reviving
  | @skip q unseen seen nodes' untyped around' =>
      have inside : layout.Member q := (ring q).mpr List.mem_cons_self
      have fresh : ListNode.object q ∉ unseen ++ .object cycle :: seen :=
        (List.nodup_cons.mp nodup).1
      refine ⟨_, [q], kept, ?_, Ledger.free (sound.listed.held inside) rfl rfl⟩
      apply Stage.testing rfl rfl around'
      constructor
      · exact tests.remain rfl untyped
      · intro object member
        have fields := (tests.kept object (List.mem_cons_of_mem _ member)).2
        exact ⟨tests.stays rfl fresh member, fields⟩
      · intro object member
        exact tests.fresh object (List.mem_cons_of_mem _ member)
      · exact tests.typed
      · exact tests.passed
  | @head seen typed =>
      obtain ⟨freed, allocated⟩ := decide_ledger
        ⟨heap.settle cycle, cycles, garbage, .testing cycle p failed⟩ cycle
        (failed || heap.color cycle ≠ .orange || heap.cyclic cycle > 0 || heap.reviving cycle)
      refine ⟨_, [], kept, ?_, Ledger.same freed allocated⟩
      apply stage_decide
      · intro object member
        rw [member_single]
        exact tests.members object member
      · intro object member
        rw [member_single] at member
        exact (tests.kept object member).1
      · intro outcome object member
        obtain ⟨unfailed, color, cyclic, reviving⟩ := passes_of_test outcome
        rw [member_single] at member
        rcases List.mem_cons.mp member with same | earlier
        · cases same
          exact tests.pass List.mem_cons_self color cyclic reviving
        · exact tests.passed unfailed object earlier
  | @headless seen nodes' untyped around' =>
      have inside : layout.Member cycle := (ring cycle).mpr List.mem_cons_self
      have fresh : ListNode.object cycle ∉ seen := (List.nodup_cons.mp nodup).1
      have ring' : ∀ object, ({ layout with
          current := [⟨.object p, nodes', some (.object p)⟩] } : Layout ι).Member object ↔
            .object object ∈ seen := by
        intro object
        rw [member_single, ← around']
        simp only [List.mem_cons, List.mem_append, List.not_mem_nil, or_false]
        exact or_comm
      obtain ⟨freed, allocated⟩ := decide_ledger
        ⟨(heap.setNext (.object p) (heap.next (.object cycle))).free cycle, cycles, garbage,
          .testing cycle p failed⟩ p failed
      refine ⟨_, [cycle], kept, ?_,
        Ledger.free (sound.listed.held inside) freed allocated⟩
      apply stage_decide
      · intro object member
        rw [ring']
        exact tests.remain rfl untyped object member
      · intro object member
        rw [ring'] at member
        exact tests.stays rfl fresh member
      · intro unfailed object member
        rw [ring'] at member
        exact tests.passed unfailed object member
  | empty untyped =>
      have inside : layout.Member cycle := (ring cycle).mpr List.mem_cons_self
      refine ⟨_, [cycle], kept, ?_, Ledger.free (sound.listed.held inside) rfl rfl⟩
      apply Stage.refurbishing
      · exact .inl rfl
      · intro object member
        rcases tests.remain rfl untyped object member with here | ⟨freed, dead⟩
        · cases here
        · exact .inr (.freed freed dead)

/-! ### A cycle that is refurbished -/

theorem refurbish_control {after : State ι}
    (taken : State.refurbish ⟨heap, cycles, garbage, .refurbish cycle p⟩ cycle p = some after) :
    after.control = .cycles ∨ ∃ cycle p, after.control = .refurbish cycle p := by
  simp only [State.refurbish, Option.bind_eq_bind, Option.bind_eq_some_iff,
    Option.some.injEq] at taken
  obtain ⟨q, _, taken⟩ := taken
  subst taken
  simp only
  split
  · exact .inl rfl
  · exact .inr ⟨_, _, rfl⟩

/-- What becomes of an object of a cycle that failed the test, and that the others stay. -/
structure Settles (heap heap' : Heap ι) (layout layout' : Layout ι) (p : ι)
    (nodes : List (ListNode ι)) : Prop where
  freed : heap'.freed = heap.freed
  allocated : heap'.allocated = heap.allocated
  color : ∀ object, object ≠ p → heap'.color object = heap.color object
  strands : ∀ node, node ∈ Strand.all layout'.strands → node ∈ Strand.all layout.strands
  garbage : ∀ node, node ∈ Strand.all layout.garbage → node ∈ Strand.all layout'.garbage
  roots : ∀ node, node ∈ layout.roots → node ∈ layout'.roots
  rest : ∀ object, .object object ∈ nodes → layout'.Member object
  place : .object p ∈ Strand.all layout'.garbage ∨
    .object p ∈ layout'.roots ∧ heap'.color p = .purple ∨
    heap'.next (.object p) = none ∧ heap'.color p = .black ∧ layout'.garbage = layout.garbage

theorem settles_of_refurbished {heap' : Heap ι} {layout' : Layout ι}
    (place : layout.current = [⟨.object p, nodes, some (.object cycle)⟩])
    (refurbished : Refurbished heap garbage cycle p layout nodes heap' layout') :
    Settles heap heap' layout layout' p nodes := by
  have rest : ∀ object, .object object ∈ nodes →
      .object object ∈ Strand.all (Strand.tails (some (.object cycle)) nodes) := by
    intro object member
    rw [Strand.all_tails]
    exact member
  cases refurbished with
  | garbage none =>
      refine ⟨rfl, rfl, fun _ _ => rfl, ?_, ?_, fun _ member => member, rest, .inl ?_⟩
      · intro node
        simp only [Layout.mem_strands, Layout.mem_others, place, Strand.all_tails]
        simp only [Strand.all_cons, Strand.all_nil, Strand.members_mk, List.append_nil,
          List.mem_cons]
        tauto
      · intro node member
        simp only [Strand.all_cons, Strand.all_nil, Strand.members_mk, List.append_nil]
        exact List.mem_cons_of_mem _ member
      · simp only [Strand.all_cons, Strand.all_nil, Strand.members_mk, List.append_nil]
        exact List.mem_cons_self
  | roots purple =>
      obtain ⟨next, previous, same⟩ := heap.append_links p
      rw [same]
      refine ⟨rfl, rfl, fun _ _ => rfl, ?_, fun _ member => member,
        fun _ member => List.mem_append_left _ member, rest,
        .inr (.inl ⟨List.mem_append_right _ List.mem_cons_self, purple⟩)⟩
      intro node
      simp only [Layout.mem_strands, Layout.mem_others, place, Strand.all_tails]
      simp only [Strand.all_cons, Strand.all_nil, Strand.members_mk, List.append_nil,
        List.mem_cons, List.mem_append, List.not_mem_nil, or_false]
      tauto
  | loose =>
      refine ⟨rfl, rfl, ?_, ?_, fun _ member => member, fun _ member => member, rest,
        .inr (.inr ⟨?_, ?_, rfl⟩)⟩
      · intro object other
        exact Function.update_of_ne other _ _
      · intro node
        simp only [Layout.mem_strands, Layout.mem_others, place, Strand.all_tails]
        simp only [Strand.all_cons, Strand.all_nil, Strand.members_mk, List.append_nil,
          List.mem_cons]
        tauto
      · exact Function.update_self _ _ _
      · exact Function.update_self _ _ _

/-- An object of a cycle that failed the test finds its place. -/
theorem stage_refurbish {after : State ι}
    (sound : Sound ⟨heap, cycles, garbage, .refurbish cycle p⟩ layout)
    (places : Refurbishing heap₀ layout₀ gone heap layout)
    (taken : State.refurbish ⟨heap, cycles, garbage, .refurbish cycle p⟩ cycle p = some after) :
    ∃ layout', Sound after layout' ∧ Stage heap₀ layout₀ gone after layout' ∧
      Ledger heap after.heap [] fun _ => 0 := by
  have control := refurbish_control taken
  obtain ⟨nodes, layout', place, kept, refurbished⟩ := refurbish_layout sound taken
  have settles := settles_of_refurbished place refurbished
  have current : ∀ object, layout.Member object ↔ object = p ∨ .object object ∈ nodes := by
    intro object
    unfold Layout.Member
    rw [place]
    simp only [Strand.all_cons, Strand.all_nil, Strand.members_mk, List.append_nil,
      List.mem_cons, ListNode.object.injEq]
  have here : layout.Member p := (current p).mpr (.inl rfl)
  have listed : .object p ∈ Strand.all layout.strands :=
    Layout.mem_strands.mpr (.inr (.inr (Layout.mem_others.mpr (.inl here))))
  refine ⟨layout', kept, .refurbishing control ?_, Ledger.same settles.freed settles.allocated⟩
  intro object member
  rcases places object member with ⟨inside, stays⟩ | placed
  · rcases (current object).mp inside with rfl | rest
    · right
      rcases settles.place with scrap | ⟨root, purple⟩ | ⟨unlinked, black, garbage⟩
      · exact .garbage stays scrap
      · exact .root stays root purple
      · apply Placed.loose stays _ _ black
        · apply kept.listed.fresh kept.closed unlinked
          rw [garbage]
          exact sound.listed.current_apart here
        · rw [settles.allocated]
          exact sound.listed.held here
    · exact .inl ⟨settles.rest object rest, stays⟩
  · right
    cases placed with
    | freed freed untyped => exact .freed freed untyped
    | garbage stays scrap => exact .garbage stays (settles.garbage _ scrap)
    | root stays root purple =>
        apply Placed.root stays (settles.roots _ root)
        rw [settles.color]
        · exact purple
        · rintro rfl
          exact sound.listed.threaded.apart (List.mem_cons_of_mem _ root)
            (Layout.mem_others.mpr (.inl here))
    | loose stays apart held black =>
        apply Placed.loose stays
        · exact fun inside => apart (settles.strands _ inside)
        · rw [settles.allocated]
          exact held
        · rw [settles.color]
          · exact black
          · rintro rfl
            exact apart listed

/-! ### A cycle that is freed as a whole -/

omit [DecidableEq ι] in
theorem Freeing.stays {layout' : Layout ι} {gone' : List ι}
    (frees : Freeing heap₀ layout₀ gone layout)
    (stays : layout.Stays layout') : Freeing heap₀ layout₀ (gone' ++ gone) layout' where
  passed := frees.passed
  members object member := by
    rcases frees.members object member with inside | freed
    · exact .inl (stays _ inside)
    · exact .inr (List.mem_append_right _ freed)

/-- Where the code stands in the loops that free a cycle, and behind them. -/
def Control.Onward (control : Control ι) : Prop :=
  control = .cycles ∨ control.frees = true

theorem turn_cases {state result after : State ι} {here : ι → Control ι}
    (turned : state.turn cycle p here after = some result) :
    result = after ∨ ∃ q, result = { state with control := here q } := by
  unfold State.turn at turned
  rw [Option.map_eq_some_iff] at turned
  obtain ⟨q, _, same⟩ := turned
  split at same
  · exact .inl same.symm
  · exact .inr ⟨q, same.symm⟩

theorem redden_after (report : List ι) {after : State ι}
    (taken : State.around ⟨heap, cycles, garbage, .round .redden cycle p⟩ .redden cycle p report =
      some after) : after.control.Onward ∧ Ledger heap after.heap [] fun _ => 0 := by
  rcases turn_cases taken with rfl | ⟨q, rfl⟩
  · exact ⟨.inr rfl, Ledger.same rfl rfl⟩
  · exact ⟨.inr rfl, Ledger.same rfl rfl⟩

theorem drop_after {children : List ι} {after : State ι}
    (taken : State.drop ⟨heap, cycles, garbage, .dropping cycle p children⟩ cycle p children =
      some after) : after.control.Onward ∧ Ledger heap after.heap [] fun _ => 0 := by
  cases children with
  | nil =>
      rcases turn_cases taken with rfl | ⟨q, rfl⟩
      · exact ⟨.inr rfl, Ledger.same rfl rfl⟩
      · exact ⟨.inr rfl, Ledger.same rfl rfl⟩
  | cons child children =>
      simp only [State.drop] at taken
      split at taken
      · cases taken
      · split at taken
        · obtain rfl := Option.some.inj taken
          exact ⟨.inr rfl, Ledger.same rfl rfl⟩
        · split at taken
          · cases taken
          · split at taken
            · obtain rfl := Option.some.inj taken
              exact ⟨.inr rfl, Ledger.same rfl rfl⟩
            · split at taken
              · obtain rfl := Option.some.inj taken
                exact ⟨.inr rfl, Ledger.lower heap child⟩
              · obtain rfl := Option.some.inj taken
                exact ⟨.inr rfl, Ledger.lower heap child⟩

theorem release_after {object : ι} {stack report : List ι} {children : List ι} {after : State ι}
    (sound : Sound ⟨heap, cycles, garbage, .release object stack (.dropping cycle p children)⟩
      layout)
    (taken : State.tick ⟨heap, cycles, garbage, .release object stack (.dropping cycle p children)⟩
      report = some after) :
    after.control.Onward ∧ ∃ gone', Ledger heap after.heap gone' fun _ => 0 := by
  have held : heap.allocated object = true := (sound.stands.2 object List.mem_cons_self).1
  simp only [State.tick, Option.bind_eq_bind, Option.bind_eq_some_iff] at taken
  obtain ⟨_, _, walk, lets, taken⟩ := taken
  have first := Ledger.decrementAll lets
  have held' : walk.heap.allocated object = true := by
    have balance := first.balance object
    unfold Heap.stock at balance
    simp only [held, if_true, List.count_nil] at balance
    by_contra absent
    rw [if_neg absent] at balance
    omega
  obtain ⟨gone', second⟩ := Ledger.release held'
  have whole := first.trans second
  split at taken
  · obtain rfl := Option.some.inj taken
    exact ⟨.inr rfl, _, whole⟩
  · obtain rfl := Option.some.inj taken
    exact ⟨.inr rfl, _, whole⟩

theorem sweep_after {report : List ι} {after : State ι}
    (taken : State.tick ⟨heap, cycles, garbage, .sweep cycle p⟩ report = some after) :
    after.control.Onward := by
  simp only [State.tick, Option.bind_eq_bind, Option.bind_eq_some_iff, Option.some.injEq] at taken
  obtain ⟨q, _, taken⟩ := taken
  subst taken
  simp only
  split
  · exact .inl rfl
  · exact .inr rfl

theorem stage_free {control : Control ι} {report : List ι} {after : State ι}
    (sound : Sound ⟨heap, cycles, garbage, control⟩ layout) (busy : control.frees = true)
    (frees : Freeing heap₀ layout₀ gone layout)
    (taken : State.tick ⟨heap, cycles, garbage, control⟩ report = some after) :
    ∃ layout' gone', Sound after layout' ∧ Stage heap₀ layout₀ (gone' ++ gone) after layout' ∧
      Ledger heap after.heap gone' fun _ => 0 := by
  cases control with
  | round round cycle p =>
      cases round with
      | redden =>
          obtain ⟨_, layout', kept, rotated, _⟩ := redden_layout report sound taken
          obtain ⟨onward, ledger⟩ := redden_after report taken
          exact ⟨layout', [], kept, .freeing onward (frees.stays rotated.stays), ledger⟩
      | drop =>
          simp only [State.tick, State.around] at taken
          split at taken
          · obtain rfl := Option.some.inj taken
            have kept : Sound ⟨heap, cycles, garbage, .dropping cycle p report⟩ layout :=
              (sound.tended rfl).sound sound.current sound.garbage sound.cycles
                (absurd · Bool.false_ne_true) trivial
            exact ⟨layout, [], kept, .freeing (.inr rfl) frees, Ledger.same rfl rfl⟩
          · cases taken
      | scanRed => cases busy
      | orange => cases busy
  | dropping cycle p children =>
      obtain ⟨layout', kept, stays⟩ := drop_layout sound taken
      obtain ⟨onward, ledger⟩ := drop_after taken
      exact ⟨layout', [], kept, .freeing onward (frees.stays stays), ledger⟩
  | release object stack back =>
      cases back with
      | dropping cycle p children =>
          obtain ⟨roots, kept⟩ := release_layout sound taken
          obtain ⟨onward, gone', ledger⟩ := release_after sound taken
          exact ⟨_, gone', kept, .freeing onward (frees.stays fun _ member => member), ledger⟩
      | epoch => cases busy
      | garbage => cases busy
  | sweep cycle p =>
      obtain ⟨nodes, place, freed, kept⟩ := sweep_layout sound taken
      have current : ∀ object, layout.Member object ↔ object = p ∨ .object object ∈ nodes := by
        intro object
        unfold Layout.Member
        rw [place]
        simp only [Strand.all_cons, Strand.all_nil, Strand.members_mk, List.append_nil,
          List.mem_cons, ListNode.object.injEq]
      have held := sound.listed.held ((current p).mpr (.inl rfl))
      have ledger : Ledger heap after.heap [p] fun _ => 0 := by
        rw [freed]
        exact Ledger.free held rfl rfl
      refine ⟨_, [p], kept, .freeing (sweep_after taken) ⟨frees.passed, ?_⟩, ledger⟩
      intro object member
      rcases frees.members object member with inside | earlier
      · rcases (current object).mp inside with rfl | rest
        · exact .inr List.mem_cons_self
        · refine .inl ?_
          unfold Layout.Member
          rw [Strand.all_tails]
          exact rest
      · exact .inr (List.mem_cons_of_mem _ earlier)
  | _ => cases busy

end

/-! ### The steps -/

section

variable {heap₀ : Heap ι} {layout₀ layout : Layout ι} {gone : List ι} {state after : State ι}

theorem stage_allocate {object : ι} (sound : Sound state layout)
    (stage : Stage heap₀ layout₀ gone state layout)
    (taken : step state (.allocate object) = some after) :
    Sound after layout ∧ Stage heap₀ layout₀ gone after layout ∧
      Ledger state.heap after.heap [] (Action.made · (.allocate object)) := by
  obtain ⟨kept, same⟩ := sound_allocate sound taken
  have absent : state.heap.allocated object = false := by
    apply Bool.eq_false_iff.mpr
    intro held
    simp only [step, held, if_true] at taken
    cases taken
  have other : ∀ member, state.heap.allocated member = true → member ≠ object := by
    rintro member held rfl
    rw [absent] at held
    cases held
  subst same
  refine ⟨kept, ?_, Ledger.allocate absent⟩
  cases stage with
  | testing control place around tests =>
      refine .testing control place around (tests.congr ?_)
      intro member inside
      have apart := other member (sound.listed.held ((member_ring place around member).mpr inside))
      exact ⟨Function.update_of_ne apart _ _, rfl, rfl, rfl⟩
  | refurbishing control places =>
      refine .refurbishing control ?_
      intro member here
      rcases places member here with inside | placed
      · exact .inl inside
      · right
        cases placed with
        | freed freed untyped => exact .freed freed untyped
        | garbage stays scrap => exact .garbage stays scrap
        | root stays root purple => exact .root stays root purple
        | loose stays apart held black =>
            refine .loose stays apart ?_ black
            exact (Function.update_of_ne (other member held) _ _).trans held
  | freeing control frees => exact .freeing control frees

omit [DecidableEq ι] in
theorem Stage.locked (stage : Stage heap₀ layout₀ gone state layout)
    (busy : state.control ≠ .cycles) : state.control.locked = true := by
  cases stage with
  | testing control place around tests =>
      rw [control]
      rfl
  | refurbishing control places =>
      rcases control with ended | ⟨cycle, p, control⟩
      · exact absurd ended busy
      · rw [control]
        rfl
  | freeing control frees =>
      have freeing := control.resolve_left busy
      generalize state.control = code at freeing
      cases code with
      | round round cycle p =>
          cases round with
          | redden => rfl
          | drop => rfl
          | scanRed => cases freeing
          | orange => cases freeing
      | release object stack back =>
          cases back with
          | dropping cycle p children => rfl
          | epoch => cases freeing
          | garbage => cases freeing
      | dropping cycle p children => rfl
      | sweep cycle p => rfl
      | _ => cases freeing

theorem stage_step {action : Action ι} (sound : Sound state layout)
    (stage : Stage heap₀ layout₀ gone state layout) (busy : state.control ≠ .cycles)
    (taken : step state action = some after) :
    ∃ layout' gone', Sound after layout' ∧ Stage heap₀ layout₀ (gone' ++ gone) after layout' ∧
      Ledger state.heap after.heap gone' (Action.made · action) := by
  rcases locked_step (stage.locked busy) taken with ⟨object, rfl⟩ | ⟨report, rfl⟩
  · obtain ⟨kept, stays, ledger⟩ := stage_allocate sound stage taken
    exact ⟨layout, [], kept, stays, ledger⟩
  · obtain ⟨heap, cycles, garbage, control⟩ := state
    cases stage with
    | testing control place around tests =>
        subst control
        exact stage_test sound place around tests taken
    | refurbishing control places =>
        rcases control with ended | ⟨cycle, p, control⟩
        · exact absurd ended busy
        · subst control
          obtain ⟨layout', kept, stays, ledger⟩ := stage_refurbish sound places taken
          exact ⟨layout', [], kept, stays, ledger⟩
    | freeing control frees =>
        exact stage_free sound (control.resolve_left busy) frees taken

theorem stage_run {final : State ι} {actions : List (Action ι)}
    (works : Works state actions final) :
    ∀ {layout : Layout ι} {gone : List ι}, Sound state layout →
      Stage heap₀ layout₀ gone state layout →
      ∃ layout' gone', Sound final layout' ∧
        Stage heap₀ layout₀ (gone' ++ gone) final layout' ∧
        Ledger state.heap final.heap gone' (allocations · actions) := by
  induction works with
  | done =>
      intro layout gone sound stage
      exact ⟨layout, [], sound, stage, Ledger.same rfl rfl⟩
  | @next state mid final action actions busy taken rest induction =>
      intro layout gone sound stage
      obtain ⟨layout₁, gone₁, sound₁, stage₁, ledger₁⟩ := stage_step sound stage busy taken
      obtain ⟨layout₂, gone₂, sound₂, stage₂, ledger₂⟩ := induction sound₁ stage₁
      refine ⟨layout₂, gone₂ ++ gone₁, sound₂, ?_, ?_⟩
      · rw [List.append_assoc]
        exact stage₂
      · have whole := ledger₁.trans ledger₂
        have made : (fun object => Action.made object action + allocations object actions) =
            (allocations · (action :: actions)) := by
          funext object
          unfold allocations
          rw [List.map_cons, List.sum_cons]
        rw [made] at whole
        exact whole

/-! ### The outcome -/

/-- What becomes of a member of a candidate cycle. -/
inductive Fate
  | freed
  | garbage
  | root
  | loose
  deriving DecidableEq, Repr

/-- What a fate means, where `gone` has been freed meanwhile. -/
def Fate.Meets (gone : List ι) (state : State ι) (layout : Layout ι) (object : ι) : Fate → Prop
  | freed => object ∈ gone
  | garbage => object ∉ gone ∧ .object object ∈ Strand.all layout.garbage ∧
      state.heap.count object = 0
  | root => object ∉ gone ∧ .object object ∈ layout.roots ∧ state.heap.color object = .purple
  | loose => object ∉ gone ∧ .object object ∉ Strand.all layout.strands ∧
      state.heap.color object = .black ∧ state.heap.next (.object object) = none

omit [DecidableEq ι] in
theorem fate_unique (sound : Sound state layout) {object : ι} {fate fate' : Fate}
    (meets : fate.Meets gone state layout object)
    (meets' : fate'.Meets gone state layout object) : fate' = fate := by
  have scrap : .object object ∈ Strand.all layout.garbage →
      .object object ∈ Strand.all layout.others :=
    fun member => Layout.mem_others.mpr (.inr (.inl member))
  have apart : .object object ∈ layout.roots → .object object ∉ Strand.all layout.garbage :=
    fun root member =>
      sound.listed.threaded.apart (List.mem_cons_of_mem _ root) (scrap member)
  have listed : .object object ∈ Strand.all layout.garbage →
      .object object ∈ Strand.all layout.strands :=
    fun member => Layout.mem_strands.mpr (.inr (.inr (scrap member)))
  have rooted : .object object ∈ layout.roots → .object object ∈ Strand.all layout.strands :=
    fun member => Layout.mem_strands.mpr (.inr (.inl member))
  cases fate with
  | freed =>
      cases fate' with
      | freed => rfl
      | garbage => exact absurd meets meets'.1
      | root => exact absurd meets meets'.1
      | loose => exact absurd meets meets'.1
  | garbage =>
      cases fate' with
      | freed => exact absurd meets' meets.1
      | garbage => rfl
      | root => exact absurd meets.2.1 (apart meets'.2.1)
      | loose => exact absurd (listed meets.2.1) meets'.2.1
  | root =>
      cases fate' with
      | freed => exact absurd meets' meets.1
      | garbage => exact absurd meets'.2.1 (apart meets.2.1)
      | root => rfl
      | loose => exact absurd (rooted meets.2.1) meets'.2.1
  | loose =>
      cases fate' with
      | freed => exact absurd meets' meets.1
      | garbage => exact absurd (listed meets'.2.1) meets.2.1
      | root => exact absurd (rooted meets'.2.1) meets.2.1
      | loose => rfl

omit [DecidableEq ι] in
theorem no_member (sound : Sound state layout) (ended : state.control = .cycles) (object : ι) :
    ¬layout.Member object := by
  have current := sound.current
  rw [ended] at current
  unfold Layout.Member
  rw [List.map_eq_nil_iff.mp current]
  exact List.not_mem_nil

omit [DecidableEq ι] in
theorem fate_exists (sound : Sound state layout) (ended : state.control = .cycles)
    (stage : Stage heap₀ layout₀ gone state layout) {object : ι}
    (member : layout₀.Member object) : ∃ fate, Fate.Meets gone state layout object fate := by
  have absent := no_member sound ended object
  cases stage with
  | testing control place around tests =>
      rw [ended] at control
      cases control
  | refurbishing control places =>
      rcases places object member with ⟨inside, _⟩ | placed
      · exact absurd inside absent
      · cases placed with
        | freed freed untyped => exact ⟨.freed, freed⟩
        | garbage stays scrap => exact ⟨.garbage, stays, scrap, sound.spent object scrap⟩
        | root stays root purple => exact ⟨.root, stays, root, purple⟩
        | loose stays apart held black =>
            exact ⟨.loose, stays, apart, black, sound.listed.unlisted object apart held⟩
  | freeing control frees =>
      exact ⟨.freed, (frees.members object member).resolve_left absent⟩

omit [DecidableEq ι] in
/-- A cycle of which a member is freed that had its type is freed as a whole. -/
theorem freed_passes (sound : Sound state layout) (ended : state.control = .cycles)
    (stage : Stage heap₀ layout₀ gone state layout) {object other : ι}
    (member : layout₀.Member object) (typed : heap₀.typed object = true) (freed : object ∈ gone)
    (member' : layout₀.Member other) (typed' : heap₀.typed other = true) :
    heap₀.Passes other := by
  cases stage with
  | testing control place around tests =>
      rw [ended] at control
      cases control
  | refurbishing control places =>
      rcases places object member with ⟨inside, _⟩ | placed
      · exact absurd inside (no_member sound ended object)
      · cases placed with
        | freed _ untyped =>
            rw [typed] at untyped
            cases untyped
        | garbage stays _ => exact absurd freed stays
        | root stays _ _ => exact absurd freed stays
        | loose stays _ _ _ => exact absurd freed stays
  | freeing control frees => exact frees.passed other member' typed'

omit [DecidableEq ι] in
theorem stage_start {cycle : ι} (sound : Sound state layout)
    (reached : state.control = .testing cycle cycle false) :
    Stage state.heap layout [] state layout := by
  have current := sound.current
  rw [reached] at current
  obtain ⟨nodes, place⟩ := eq_of_ends current
  have around : nodes ++ [ListNode.object cycle] = nodes ++ .object cycle :: [] := rfl
  refine .testing reached place around ⟨?_, ?_, fun _ _ => rfl, nofun, nofun⟩
  · intro object member
    exact .inl ((member_ring place around object).mp member)
  · intro object _
    exact ⟨List.not_mem_nil, rfl, rfl, rfl⟩

/-- The free phase on a candidate cycle, from the test of its head on. No turn is stuck unless
it lets go of what is not counted. The next cycle is looked for some time, when the references
that are let go are to objects that have been there before. Each member has one fate then, no
object has been freed that was not there, and where a member has been freed that had its type,
all that had theirs pass the test. -/
theorem cycle_partition [Fintype ι] {cycle : ι} (sound : Sound state layout)
    (reached : state.control = .testing cycle cycle false) :
    (∀ actions mid report, Works state actions mid → mid.control ≠ .cycles →
      Backed mid report → ∃ after, step mid (.tick report) = some after) ∧
    (∀ (states : Nat → State ι) (actions : Nat → Action ι), states 0 = state →
      Machine.Endless step states actions →
      (∀ n, ∃ m, n ≤ m ∧ ∃ report, actions m = .tick report) →
      (∀ m n object report, m < n → actions m = .allocate object →
        actions n = .tick report → object ∉ report) →
      ∃ n, Works state ((List.range n).map actions) (states n) ∧
        (states n).control = .cycles) ∧
    ∀ actions final, Works state actions final → final.control = .cycles →
      ∃ layout' gone, Sound final layout' ∧ final.heap.freed = gone ++ state.heap.freed ∧
        (∀ object, gone.count object + final.heap.stock object =
          state.heap.stock object + allocations object actions) ∧
        (∀ object, layout.Member object → ∃! fate, Fate.Meets gone final layout' object fate) ∧
        ∀ object other, layout.Member object → state.heap.typed object = true → object ∈ gone →
          layout.Member other → state.heap.typed other = true → state.heap.Passes other := by
  have under : Underway state layout := by
    refine ⟨sound, ?_, ?_⟩
    · rw [reached]
      rfl
    · rw [reached]
      nofun
  refine ⟨?_, ?_, ?_⟩
  · intro actions mid report works busy counted
    obtain ended | ⟨layout', under'⟩ := under.works works
    · exact absurd ended busy
    · exact under'.enabled counted
  · intro states actions start endless often old
    subst start
    refine under.first endless often fun n report object same member => ?_
    refine Bool.eq_false_iff.mpr fun made => ?_
    obtain ⟨m, less, allocates⟩ := List.any_eq_true.mp made
    exact old m n object report (List.mem_range.mp less) (Action.makes_iff.mp allocates) same member
  · intro actions final works ended
    obtain ⟨layout', gone, sound', stage, ledger⟩ := stage_run works sound
      (stage_start sound reached)
    rw [List.append_nil] at stage
    refine ⟨layout', gone, sound', ledger.freed, ledger.balance, ?_, ?_⟩
    · intro object member
      obtain ⟨fate, meets⟩ := fate_exists sound' ended stage member
      exact ⟨fate, meets, fun fate' meets' => fate_unique sound' meets meets'⟩
    · intro object other member typed freed member' typed'
      exact freed_passes sound' ended stage member typed freed member' typed'

end

/-- A candidate cycle of four objects: the head has lost its type, the object 1 its last
reference, and the object 3 one reference. -/
def mixed : State (Fin 4) where
  heap := {
    next := fun node => match node with
      | .roots => some .roots
      | .object object => some (.object (object + 1))
    previous := fun node => match node with
      | .roots => some .roots
      | .object _ => none
    color := fun object => if object = 3 then .purple else .orange
    reviving := fun _ => false
    count := fun object => if object = 1 then 0 else 1
    cyclic := fun _ => 0
    typed := fun object => object ≠ 0
    allocated := fun _ => true
    freed := [] }
  cycles := []
  garbage := none
  control := .testing 0 0 false

/-- The lists of `mixed`. -/
def mixedLayout : Layout (Fin 4) :=
  ⟨[], [⟨.object 0, [.object 1, .object 2, .object 3], some (.object 0)⟩], [], []⟩

theorem sound_mixed : Sound mixed mixedLayout := by
  constructor
  · constructor
    · constructor
      · intro strand member
        rcases List.mem_cons.mp member with rfl | member
        · rfl
        · cases List.mem_singleton.mp member
          exact ⟨rfl, rfl, rfl, rfl⟩
      · decide
    · intro object outside _
      refine absurd ?_ outside
      revert object
      decide
    · intro object _
      rfl
    · intro object _
      rfl
    · exact nofun
  · rfl
  · rfl
  · rfl
  · intro _
    rfl
  · exact nofun
  · exact nofun
  · intro nodes place
    cases place
    exact ⟨[.object 1, .object 2, .object 3], [], rfl, nofun⟩

/-- The head is freed, and the others have the three fates of a cycle that failed the test. -/
theorem mixed_parted : ∃ layout' gone final,
    Works mixed (List.replicate 7 (.tick [])) final ∧ final.control = .cycles ∧
      Sound final layout' ∧ Fate.Meets gone final layout' 0 .freed ∧
      Fate.Meets gone final layout' 1 .garbage ∧ Fate.Meets gone final layout' 2 .loose ∧
      Fate.Meets gone final layout' 3 .root := by
  obtain ⟨final, works, ended, heap⟩ : ∃ final,
      Works mixed (List.replicate 7 (.tick [])) final ∧ final.control = .cycles ∧
        final.heap.freed = [0] ∧ final.heap.color 1 = .orange ∧
        (final.heap.color 2 = .black ∧ final.heap.count 2 = 1) ∧
        final.heap.color 3 = .purple ∧ final.heap.count 3 = 1 :=
    ⟨_, .next nofun rfl (.next nofun rfl (.next nofun rfl (.next nofun rfl (.next nofun rfl
      (.next nofun rfl (.next nofun rfl .done)))))), rfl, rfl, rfl, ⟨rfl, rfl⟩, rfl, rfl⟩
  obtain ⟨freed, scrap, loose, root⟩ := heap
  obtain ⟨layout', gone, sound, same, _, fates, _⟩ :=
    (cycle_partition sound_mixed rfl).2.2 _ final works ended
  have gone_eq : gone = [0] := by
    rw [freed] at same
    exact (same.trans (List.append_nil gone)).symm
  have member : ∀ object, mixedLayout.Member object := by
    unfold Layout.Member
    decide
  have stays : ∀ object, object ≠ 0 → object ∉ gone := fun object other member =>
    other (List.mem_singleton.mp (gone_eq ▸ member))
  refine ⟨layout', gone, final, works, ended, sound, ?_, ?_, ?_, ?_⟩
  · rw [gone_eq]
    exact List.mem_singleton_self 0
  · obtain ⟨fate, meets, _⟩ := fates 1 (member 1)
    cases fate with
    | freed => exact absurd meets (stays 1 (by decide))
    | garbage => exact meets
    | root => cases scrap.symm.trans meets.2.2
    | loose => cases scrap.symm.trans meets.2.2.1
  · obtain ⟨fate, meets, _⟩ := fates 2 (member 2)
    cases fate with
    | freed => exact absurd meets (stays 2 (by decide))
    | garbage => cases loose.2.symm.trans meets.2.2
    | root => cases loose.1.symm.trans meets.2.2
    | loose => exact meets
  · obtain ⟨fate, meets, _⟩ := fates 3 (member 3)
    cases fate with
    | freed => exact absurd meets (stays 3 (by decide))
    | garbage => cases root.2.symm.trans meets.2.2
    | root => exact meets
    | loose => cases root.1.symm.trans meets.2.2.1

end Xemmai.Collector
