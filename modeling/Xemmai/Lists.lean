import Mathlib.Data.List.Induction
import Xemmai.Collector

/-!
# The lists of the collector

The lists that the objects are on: the roots, the cycle that is being worked on
or what is left of it, the garbage and the candidate cycles. They share no
object, and an object on none of them has no link; each operation that moves an
object between them keeps that.
-/

namespace Xemmai.Collector

set_option autoImplicit false

variable {ι : Type}

structure Layout (ι : Type) where
  roots : List (ListNode ι)
  current : List (Strand (ListNode ι))
  garbage : List (Strand (ListNode ι))
  cycles : List (Strand (ListNode ι))

namespace Layout

def spine (layout : Layout ι) : Strand (ListNode ι) :=
  ⟨.roots, layout.roots, some .roots⟩

def others (layout : Layout ι) : List (Strand (ListNode ι)) :=
  layout.current ++ (layout.garbage ++ layout.cycles)

def strands (layout : Layout ι) : List (Strand (ListNode ι)) :=
  layout.spine :: layout.others

theorem mem_others {layout : Layout ι} {node : ListNode ι} :
    node ∈ Strand.all layout.others ↔ node ∈ Strand.all layout.current ∨
      node ∈ Strand.all layout.garbage ∨ node ∈ Strand.all layout.cycles := by
  simp [others]

theorem mem_strands {layout : Layout ι} {node : ListNode ι} :
    node ∈ Strand.all layout.strands ↔
      node = .roots ∨ node ∈ layout.roots ∨ node ∈ Strand.all layout.others := by
  simp [strands, spine]

theorem current_first (layout : Layout ι) :
    layout.strands.Perm (layout.current ++ { layout with current := [] }.strands) :=
  List.perm_middle.symm

theorem garbage_first (layout : Layout ι) :
    layout.strands.Perm (layout.garbage ++ { layout with garbage := [] }.strands) := by
  have apart : (layout.current ++ (layout.garbage ++ layout.cycles)).Perm
      (layout.garbage ++ (layout.current ++ layout.cycles)) := by
    rw [← List.append_assoc, ← List.append_assoc]
    exact List.perm_append_comm.append_right _
  exact (apart.cons _).trans List.perm_middle.symm

end Layout

structure Listed (heap : Heap ι) (layout : Layout ι) : Prop where
  threaded : Threaded heap.next layout.strands
  unlisted : ∀ object, .object object ∉ Strand.all layout.strands →
    heap.allocated object = true → heap.next (.object object) = none
  owned : ∀ object, .object object ∈ Strand.all layout.strands →
    heap.allocated object = true
  detached : ∀ object, .object object ∈ Strand.all layout.others →
    heap.previous (.object object) = none
  typed : ∀ object, .object object ∈ layout.roots → heap.typed object = true

def Doubly (heap : Heap ι) (layout : Layout ι) : Prop :=
  Chain heap.previous .roots layout.roots.reverse (some .roots)

namespace Listed

variable {heap heap' : Heap ι} {layout : Layout ι}

theorem congr (listed : Listed heap layout) (next : heap'.next = heap.next)
    (previous : heap'.previous = heap.previous) (allocated : heap'.allocated = heap.allocated)
    (typed : ∀ object, .object object ∈ layout.roots → heap'.typed object = heap.typed object) :
    Listed heap' layout where
  threaded := next ▸ listed.threaded
  unlisted := by rw [next, allocated]; exact listed.unlisted
  owned := by rw [allocated]; exact listed.owned
  detached := by rw [previous]; exact listed.detached
  typed object member := (typed object member).trans (listed.typed object member)

theorem linked (listed : Listed heap layout) : Chain heap.next .roots layout.roots (some .roots) :=
  listed.threaded.first

theorem reverse_nodup (listed : Listed heap layout) :
    (.roots :: layout.roots.reverse).Nodup :=
  ((List.reverse_perm layout.roots).cons _).nodup_iff.mpr listed.threaded.first_nodup

theorem remove (listed : Listed heap layout) {layout' : Layout ι} (object : ι)
    (threaded : Threaded heap'.next layout'.strands)
    (members : ∀ node, node ∈ Strand.all layout.strands ↔
      node = .object object ∨ node ∈ Strand.all layout'.strands)
    (next : ∀ node, node ∉ Strand.all layout.strands → heap'.next node = heap.next node)
    (gone : heap'.allocated object = true → heap'.next (.object object) = none)
    (allocated : ∀ other, other ≠ object → heap'.allocated other = heap.allocated other)
    (apart : .object object ∉ Strand.all layout'.strands)
    (detached : ∀ other, .object other ∈ Strand.all layout'.others →
      heap'.previous (.object other) = none)
    (typed : ∀ other, .object other ∈ layout'.roots → heap'.typed other = true) :
    Listed heap' layout' where
  threaded := threaded
  unlisted := by
    intro other outside held
    by_cases same : other = object
    · subst same
      exact gone held
    · rw [allocated other same] at held
      have away : .object other ∉ Strand.all layout.strands := by
        rw [members]
        simp [same, outside]
      rw [next _ away]
      exact listed.unlisted other away held
  owned := by
    intro other inside
    have different : other ≠ object := by
      rintro rfl
      exact apart inside
    rw [allocated other different]
    exact listed.owned other ((members _).mpr (Or.inr inside))
  detached := detached
  typed := typed

theorem add (listed : Listed heap layout) {layout' : Layout ι} (object : ι)
    (threaded : Threaded heap'.next layout'.strands)
    (members : ∀ node, node ∈ Strand.all layout'.strands ↔
      node = .object object ∨ node ∈ Strand.all layout.strands)
    (next : ∀ node, node ∉ Strand.all layout'.strands → heap'.next node = heap.next node)
    (allocated : heap'.allocated = heap.allocated) (held : heap.allocated object = true)
    (detached : ∀ other, .object other ∈ Strand.all layout'.others →
      heap'.previous (.object other) = none)
    (typed : ∀ other, .object other ∈ layout'.roots → heap'.typed other = true) :
    Listed heap' layout' where
  threaded := threaded
  unlisted := by
    intro other outside present
    rw [next _ outside]
    rw [allocated] at present
    apply listed.unlisted other _ present
    exact fun member => outside ((members _).mpr (Or.inr member))
  owned := by
    intro other inside
    rw [allocated]
    rcases (members _).mp inside with same | inside
    · cases same
      exact held
    · exact listed.owned other inside
  detached := detached
  typed := typed

theorem shift (listed : Listed heap layout) {object : ι} {nodes : List (ListNode ι)}
    {last : Option (ListNode ι)} (place : layout.current = [⟨.object object, nodes, last⟩])
    (next : ∀ node, node ≠ .object object → heap'.next node = heap.next node)
    (gone : heap'.allocated object = true → heap'.next (.object object) = none)
    (allocated : ∀ other, other ≠ object → heap'.allocated other = heap.allocated other)
    (previous : heap'.previous = heap.previous) (typed : heap'.typed = heap.typed) :
    Listed heap' { layout with current := Strand.tails last nodes } := by
  have order := Layout.current_first { layout with current := Strand.tails last nodes }
  have threaded := listed.threaded.perm layout.current_first
  rw [place, List.singleton_append] at threaded
  have fresh := threaded.pull_fresh
  have kept : Threaded heap'.next _ := threaded.pull.congr
    (fun node member => next node (by rintro rfl; exact fresh member))
  apply listed.remove object (kept.perm order.symm)
  · intro node
    simp only [Layout.mem_strands, Layout.mem_others, place, Strand.all_tails]
    simp only [Strand.all_cons, Strand.all_nil, Strand.members_mk, List.append_nil,
      List.mem_cons]
    tauto
  · intro node outside
    apply next
    rintro rfl
    apply outside
    simp [Layout.mem_strands, Layout.mem_others, place]
  · exact gone
  · exact allocated
  · exact fun member => fresh ((Strand.mem_perm order).mp member)
  · intro other inside
    rw [previous]
    apply listed.detached
    simp only [Layout.mem_others, place, Strand.all_tails] at inside ⊢
    simp only [Strand.all_cons, Strand.all_nil, Strand.members_mk, List.append_nil,
      List.mem_cons]
    tauto
  · rw [typed]
    exact listed.typed

theorem object_of_others (listed : Listed heap layout) {node : ListNode ι}
    (member : node ∈ Strand.all layout.others) : ∃ object, node = .object object := by
  cases node with
  | roots => exact absurd member (listed.threaded.apart List.mem_cons_self)
  | object object => exact ⟨object, rfl⟩

theorem object_of_roots (listed : Listed heap layout) {node : ListNode ι}
    (member : node ∈ layout.roots) : ∃ object, node = .object object := by
  cases node with
  | roots => exact absurd member (List.nodup_cons.mp listed.threaded.first_nodup).1
  | object object => exact ⟨object, rfl⟩

theorem current_apart (listed : Listed heap layout) {node : ListNode ι}
    (member : node ∈ Strand.all layout.current) : node ∉ Strand.all layout.garbage := by
  have nodup := (listed.threaded.perm layout.current_first).nodup
  rw [Strand.all_append, List.nodup_append] at nodup
  intro elsewhere
  apply nodup.2.2 node member node _ rfl
  rw [Layout.mem_strands, Layout.mem_others]
  exact Or.inr (Or.inr (Or.inr (Or.inl elsewhere)))

theorem ring_apart (listed : Listed heap layout) {node : ListNode ι}
    (member : node ∈ Strand.all layout.current) : node ∉ Strand.all layout.cycles := by
  have nodup := (listed.threaded.perm layout.current_first).nodup
  rw [Strand.all_append, List.nodup_append] at nodup
  intro elsewhere
  apply nodup.2.2 node member node _ rfl
  rw [Layout.mem_strands, Layout.mem_others]
  exact Or.inr (Or.inr (Or.inr (Or.inr elsewhere)))

theorem reorder (listed : Listed heap layout) {layout' : Layout ι}
    (threaded : Threaded heap.next layout'.strands) (roots : layout'.roots = layout.roots)
    (members : ∀ node, node ∈ Strand.all layout'.others ↔ node ∈ Strand.all layout.others) :
    Listed heap layout' := by
  have inside : ∀ node, node ∈ Strand.all layout'.strands ↔
      node ∈ Strand.all layout.strands := by
    intro node
    rw [Layout.mem_strands, Layout.mem_strands, members, roots]
  refine ⟨threaded, ?_, ?_, ?_, ?_⟩
  · intro object outside
    exact listed.unlisted object (mt (inside _).mpr outside)
  · intro object member
    exact listed.owned object ((inside _).mp member)
  · intro object member
    exact listed.detached object ((members _).mp member)
  · rw [roots]
    exact listed.typed

theorem turn (listed : Listed heap layout) {p : ι} {nodes : List (ListNode ι)}
    (place : layout.current = [⟨.object p, nodes, some (.object p)⟩]) :
    ∃ q rest, nodes ++ [.object p] = .object q :: rest ∧
      heap.follow (.object p) = some q ∧
      Listed heap { layout with current := [⟨.object q, rest, some (.object q)⟩] } := by
  obtain ⟨node, rest, around⟩ : ∃ node rest, nodes ++ [.object p] = node :: rest := by
    cases nodes with
    | nil => exact ⟨_, _, rfl⟩
    | cons node nodes => exact ⟨_, _, rfl⟩
  have same : (Strand.all layout.current).Perm (node :: rest) := by
    rw [place, ← around]
    simp only [Strand.all_cons, Strand.all_nil, Strand.members_mk, List.append_nil]
    exact (List.perm_append_singleton _ _).symm
  obtain ⟨q, rfl⟩ := listed.object_of_others
    (Layout.mem_others.mpr (Or.inl (same.mem_iff.mpr List.mem_cons_self)))
  have order := Layout.current_first
    { layout with current := [⟨.object q, rest, some (.object q)⟩] }
  have threaded := listed.threaded.perm layout.current_first
  rw [place, List.singleton_append] at threaded
  obtain ⟨step, turned⟩ := threaded.rotate around
  refine ⟨q, rest, around, by simp only [Heap.follow, step],
    listed.reorder (turned.perm order.symm) rfl ?_⟩
  intro node
  simp only [Layout.mem_others, same.mem_iff]
  simp only [Strand.all_cons, Strand.all_nil, Strand.members_mk, List.append_nil]

theorem joint_next (listed : Listed heap layout) {before after : List (ListNode ι)}
    (place : layout.roots = before ++ after) :
    heap.next (before.getLast?.getD .roots) = some (after.head?.getD .roots) := by
  have linked := listed.linked
  rw [place] at linked
  cases before using List.reverseRecOn with
  | nil => exact linked.next_first
  | append_singleton before node =>
    rw [List.append_assoc, List.singleton_append, Chain.append_iff] at linked
    rw [List.getLast?_concat, Option.getD_some]
    exact linked.2.next_first

theorem forward (listed : Listed heap layout) {before after : List (ListNode ι)} {p : ι}
    (place : layout.roots = before ++ .object p :: after) :
    heap.next (.object p) = some (after.head?.getD .roots) := by
  have linked := listed.linked
  rw [place, Chain.append_iff] at linked
  exact linked.2.next_first

variable [DecidableEq ι]

/-- `f_append`. -/
theorem append (listed : Listed heap layout) (doubly : Doubly heap layout) {object : ι}
    (allocated : heap.allocated object = true) (typed : heap.typed object = true)
    (fresh : .object object ∉ Strand.all layout.strands) :
    Listed (heap.append object) { layout with roots := layout.roots ++ [.object object] } ∧
      Doubly (heap.append object)
        { layout with roots := layout.roots ++ [.object object] } := by
  have last : heap.previous .roots = some (layout.roots.getLast?.getD .roots) := by
    rw [doubly.next_first, List.head?_reverse]
  have same : heap.append object =
      { heap with
        next := Function.update (Function.update heap.next (.object object) (some .roots))
          (layout.roots.getLast?.getD .roots) (some (.object object))
        previous := Function.update (Function.update heap.previous (.object object)
          (heap.previous .roots)) .roots (some (.object object)) } := by
    simp only [Heap.append, last]
    rfl
  have joint : layout.roots.getLast?.getD .roots ∈ .roots :: layout.roots := Chain.joint_mem
  have apart := fresh
  rw [Layout.mem_strands, not_or, not_or] at apart
  rw [same]
  constructor
  · apply listed.add object (listed.threaded.extend fresh)
    · intro node
      simp only [Layout.mem_strands, List.mem_append, List.mem_singleton, Layout.others]
      tauto
    · intro node outside
      simp only [Layout.mem_strands, List.mem_append, List.mem_singleton, not_or] at outside
      have away : node ≠ layout.roots.getLast?.getD .roots := by
        intro equal
        rw [← equal, List.mem_cons] at joint
        exact joint.elim outside.1 outside.2.1.1
      simp only [Function.update_of_ne away, Function.update_of_ne outside.2.1.2]
    · rfl
    · exact allocated
    · intro other inside
      have away : ListNode.object other ≠ .object object := by
        intro equal
        exact apart.2.2 (equal ▸ inside)
      have under : ListNode.object other ≠ .roots := by simp
      simp only [Function.update_of_ne away, Function.update_of_ne under]
      exact listed.detached other inside
    · intro other inside
      simp only [List.mem_append, List.mem_singleton] at inside
      rcases inside with inside | inside
      · exact listed.typed other inside
      · cases inside
        exact typed
  · unfold Doubly
    simp only [List.reverse_append, List.reverse_singleton, List.singleton_append]
    apply doubly.insert listed.reverse_nodup
    rw [List.mem_cons, List.mem_reverse]
    exact fun member => member.elim apart.1 apart.2.1

omit [DecidableEq ι] in
theorem unroot_fresh (listed : Listed heap layout) {before after : List (ListNode ι)}
    {object : ι} (place : layout.roots = before ++ .object object :: after) :
    .object object ∉ Strand.all { layout with roots := before ++ after }.strands := by
  have threaded := listed.threaded
  rw [Layout.strands, Layout.spine, place] at threaded
  exact threaded.unlink_fresh

/-- An object is taken out of the roots, its own link reset. -/
theorem unroot (listed : Listed heap layout) {before after : List (ListNode ι)} {object : ι}
    (place : layout.roots = before ++ .object object :: after) :
    Listed ((heap.setNext (before.getLast?.getD .roots) (heap.next (.object object))).setNext
      (.object object) none) { layout with roots := before ++ after } := by
  have threaded := listed.threaded
  rw [Layout.strands, Layout.spine, place] at threaded
  have fresh := listed.unroot_fresh place
  have joint : before.getLast?.getD .roots ∈ .roots :: before := Chain.joint_mem
  apply listed.remove object (threaded.unlink.update none fresh)
  · intro node
    simp only [Layout.mem_strands, place, List.mem_append, List.mem_cons, Layout.others]
    tauto
  · intro node outside
    simp only [Layout.mem_strands, place, List.mem_append, List.mem_cons, not_or] at outside
    have away : node ≠ before.getLast?.getD .roots := by
      intro equal
      rw [← equal, List.mem_cons] at joint
      exact joint.elim outside.1 outside.2.1.1
    simp only [Heap.setNext, Function.update_of_ne away,
      Function.update_of_ne outside.2.1.2.1]
  · intro _
    exact Function.update_self _ _ _
  · intro _ _
    rfl
  · exact fresh
  · exact listed.detached
  · intro other inside
    apply listed.typed other
    rw [place]
    simp only [List.mem_append, List.mem_cons] at inside ⊢
    tauto

theorem scrap (listed : Listed heap layout) {object : ι} {nodes : List (ListNode ι)}
    (place : layout.garbage = [⟨.object object, nodes, none⟩]) :
    Listed (heap.setNext (.object object) none)
      { layout with garbage := Strand.tails none nodes } := by
  have order := Layout.garbage_first { layout with garbage := Strand.tails none nodes }
  have threaded := listed.threaded.perm layout.garbage_first
  rw [place, List.singleton_append] at threaded
  have fresh := threaded.pull_fresh
  apply listed.remove object ((threaded.pull.update none fresh).perm order.symm)
  · intro node
    simp only [Layout.mem_strands, Layout.mem_others, place, Strand.all_tails]
    simp only [Strand.all_cons, Strand.all_nil, Strand.members_mk, List.append_nil,
      List.mem_cons]
    tauto
  · intro node outside
    apply Function.update_of_ne
    rintro rfl
    apply outside
    simp [Layout.mem_strands, Layout.mem_others, place]
  · intro _
    exact Function.update_self _ _ _
  · intro _ _
    rfl
  · exact fun member => fresh ((Strand.mem_perm order).mp member)
  · intro other inside
    apply listed.detached
    simp only [Layout.mem_others, place, Strand.all_tails] at inside ⊢
    simp only [Strand.all_cons, Strand.all_nil, Strand.members_mk, List.append_nil,
      List.mem_cons]
    tauto
  · exact listed.typed

theorem discard (listed : Listed heap layout) {object : ι} {head : Option ι}
    (heads : layout.garbage.map (fun strand => (strand.first, strand.last)) =
      head.toList.map fun object => (.object object, none))
    (fresh : .object object ∉ Strand.all layout.strands)
    (held : heap.allocated object = true) (previous : heap.previous (.object object) = none) :
    Listed (heap.setNext (.object object) (head.map .object)) { layout with
      garbage := [⟨.object object, Strand.all layout.garbage, none⟩] } := by
  have linked : Chain (heap.setNext (.object object) (head.map .object)).next (.object object)
      (Strand.all layout.garbage) none := by
    cases head with
    | none =>
      simp only [Option.toList_none, List.map_nil, List.map_eq_nil_iff] at heads
      rw [heads]
      exact Function.update_self _ _ _
    | some first =>
      simp only [Option.toList_some, List.map_cons, List.map_nil, List.map_eq_singleton_iff,
        Prod.mk.injEq] at heads
      obtain ⟨⟨first', nodes, last⟩, place, rfl, rfl⟩ := heads
      have chain := (listed.threaded.perm layout.garbage_first).linked ⟨.object first, nodes, none⟩
        (by simp [place])
      rw [place]
      simp only [Strand.all_cons, Strand.all_nil, Strand.members_mk, List.append_nil]
      refine ⟨Function.update_self _ _ _, Chain.update chain _ ?_⟩
      intro member
      apply fresh
      rw [Layout.mem_strands, Layout.mem_others, place]
      simp only [Strand.all_cons, Strand.all_nil, Strand.members_mk, List.append_nil]
      exact Or.inr (Or.inr (Or.inr (Or.inl member)))
  have order := layout.garbage_first
  have order' := Layout.garbage_first
    { layout with garbage := [⟨.object object, Strand.all layout.garbage, none⟩] }
  have apart := (listed.threaded.perm order).nodup
  rw [Strand.all_append, List.nodup_append] at apart
  have away := fresh
  rw [Strand.mem_perm order, Strand.all_append, List.mem_append, not_or] at away
  have threaded : Threaded (heap.setNext (.object object) (head.map .object)).next
      (⟨.object object, Strand.all layout.garbage, none⟩ ::
        { layout with garbage := [] }.strands) := by
    apply Threaded.cons
    · exact (listed.threaded.perm order).back.update _ away.2
    · exact linked
    · exact List.nodup_cons.mpr ⟨away.1, apart.1⟩
    · intro node member elsewhere
      rcases List.mem_cons.mp member with rfl | member
      · exact away.2 elsewhere
      · exact apart.2.2 _ member _ elsewhere rfl
  refine listed.add object (threaded.perm order'.symm) ?_ ?_ rfl held ?_ listed.typed
  · intro node
    simp only [Layout.mem_strands, Layout.mem_others]
    simp only [Strand.all_cons, Strand.all_nil, Strand.members_mk, List.append_nil,
      List.mem_cons]
    tauto
  · intro node outside
    apply Function.update_of_ne
    rintro rfl
    apply outside
    simp [Layout.mem_strands, Layout.mem_others]
  · intro other inside
    simp only [Layout.mem_others] at inside
    simp only [Strand.all_cons, Strand.all_nil, Strand.members_mk, List.append_nil,
      List.mem_cons] at inside
    by_cases same : ListNode.object other = .object object
    · cases same
      exact previous
    · apply listed.detached
      rw [Layout.mem_others]
      tauto

theorem bury (listed : Listed heap layout) {first object : ι} {nodes : List (ListNode ι)}
    {last : Option (ListNode ι)}
    (place : layout.current = [⟨.object first, .object object :: nodes, last⟩]) :
    Listed ((heap.setNext (.object first) (heap.next (.object object))).free object)
      { layout with current := [⟨.object first, nodes, last⟩] } := by
  have order := Layout.current_first { layout with current := [⟨.object first, nodes, last⟩] }
  have threaded := listed.threaded.perm layout.current_first
  rw [place, List.singleton_append, ← List.nil_append (_ :: nodes)] at threaded
  have fresh := threaded.unlink_fresh
  apply listed.remove object (threaded.unlink.perm order.symm)
  · intro node
    simp only [Layout.mem_strands, Layout.mem_others, place]
    simp only [Strand.all_cons, Strand.all_nil, Strand.members_mk, List.append_nil,
      List.mem_cons]
    tauto
  · intro node outside
    apply Function.update_of_ne
    rintro rfl
    apply outside
    simp [Layout.mem_strands, Layout.mem_others, place]
  · intro held
    simp [Heap.free] at held
  · intro other different
    exact Function.update_of_ne different _ _
  · exact fun member => fresh ((Strand.mem_perm order).mp member)
  · intro other inside
    apply listed.detached
    simp only [Layout.mem_others, place] at inside ⊢
    simp only [Strand.all_cons, Strand.all_nil, Strand.members_mk, List.append_nil,
      List.mem_cons] at inside ⊢
    tauto
  · exact listed.typed

theorem uproot (listed : Listed heap layout) (doubly : Doubly heap layout)
    {before after : List (ListNode ι)} {object : ι}
    (place : layout.roots = before ++ .object object :: after) :
    Listed (heap.release object) { layout with roots := before ++ after } ∧
      Doubly (heap.release object) { layout with roots := before ++ after } := by
  have threaded := listed.threaded
  unfold Doubly at doubly
  rw [place, List.reverse_append, List.reverse_cons, List.append_assoc,
    List.singleton_append] at doubly
  have backward := (Chain.append_iff.mp doubly).2.next_first
  have forward := listed.forward place
  rw [List.head?_reverse] at backward
  rw [Layout.strands, Layout.spine, place] at threaded
  have fresh := threaded.unlink_fresh
  have joint : before.getLast?.getD .roots ∈ .roots :: before := Chain.joint_mem
  have same : heap.release object =
      (((heap.untype object).setPrevious (after.head?.getD .roots)
        (some (before.getLast?.getD .roots))).setNext (before.getLast?.getD .roots)
          (some (after.head?.getD .roots))).free object := by
    have forward' : (heap.untype object).next (.object object) =
        some (after.head?.getD .roots) := forward
    have backward' : (heap.untype object).previous (.object object) =
        some (before.getLast?.getD .roots) := backward
    simp only [Heap.release, forward', backward']
  rw [same]
  constructor
  · apply listed.remove object
    · have kept := threaded.unlink
      rw [forward] at kept
      exact kept
    · intro node
      simp only [Layout.mem_strands, place, List.mem_append, List.mem_cons, Layout.others]
      tauto
    · intro node outside
      simp only [Layout.mem_strands, place, List.mem_append, List.mem_cons, not_or] at outside
      apply Function.update_of_ne
      intro equal
      rw [← equal, List.mem_cons] at joint
      exact joint.elim outside.1 outside.2.1.1
    · intro held
      simp [Heap.free] at held
    · intro other different
      exact Function.update_of_ne different _ _
    · exact fresh
    · intro other inside
      have away : ListNode.object other ≠ after.head?.getD .roots := by
        intro equal
        have member : after.head?.getD .roots ∈ .roots :: layout.roots := by
          rw [place]
          cases after <;> simp
        rw [← equal] at member
        exact listed.threaded.apart member inside
      simp only [Heap.free, Heap.setNext, Heap.setPrevious, Function.update_of_ne away]
      exact listed.detached other inside
    · intro other inside
      have member : ListNode.object other ∈ layout.roots := by
        rw [place]
        simp only [List.mem_append, List.mem_cons] at inside ⊢
        tauto
      have different : other ≠ object := by
        rintro rfl
        apply fresh
        simp only [Strand.all_cons, Strand.members_mk, List.cons_append, List.mem_cons,
          List.mem_append]
        simp only [List.mem_append] at inside
        tauto
      simp only [Heap.free, Heap.setNext, Heap.setPrevious, Heap.untype,
        Function.update_of_ne different]
      exact listed.typed other member
  · unfold Doubly
    rw [List.reverse_append]
    have nodup := listed.reverse_nodup
    rw [place, List.reverse_append, List.reverse_cons, List.append_assoc,
      List.singleton_append] at nodup
    have kept := doubly.unlink nodup
    rw [backward, List.getLast?_reverse] at kept
    exact kept

/-- An object that is on no list becomes a cycle of its own. -/
theorem gather (listed : Listed heap layout) {object : ι} (empty : layout.current = [])
    (fresh : .object object ∉ Strand.all layout.strands)
    (held : heap.allocated object = true) :
    Listed (heap.collectWhite object)
      { layout with current := [⟨.object object, [], some (.object object)⟩] } := by
  have order := Layout.current_first
    { layout with current := [⟨.object object, [], some (.object object)⟩] }
  have same : { layout with current := [] } = layout := by
    rw [← empty]
  have threaded : Threaded (heap.collectWhite object).next
      (⟨.object object, [], some (.object object)⟩ :: layout.strands) := by
    apply Threaded.cons
    · exact listed.threaded.update _ fresh
    · exact Function.update_self _ _ _
    · exact List.nodup_singleton _
    · intro node member
      rw [List.mem_singleton.mp member]
      exact fresh
  apply listed.add object
  · apply threaded.perm
    rw [same] at order
    exact order.symm
  · intro node
    simp only [Layout.mem_strands, Layout.mem_others, empty]
    simp only [Strand.all_cons, Strand.all_nil, Strand.members_mk, List.append_nil,
      List.mem_cons, List.not_mem_nil]
    tauto
  · intro node outside
    apply Function.update_of_ne
    rintro rfl
    apply outside
    simp [Layout.mem_strands, Layout.mem_others]
  · rfl
  · exact held
  · intro other inside
    by_cases equal : other = object
    · subst equal
      exact Function.update_self _ _ _
    · have away : ListNode.object other ≠ .object object := by simp [equal]
      simp only [Heap.collectWhite, Heap.setPrevious, Heap.setNext, Heap.setCyclic, Heap.paint,
        Function.update_of_ne away]
      apply listed.detached
      simp only [Layout.mem_others, empty] at inside ⊢
      simp only [Strand.all_cons, Strand.all_nil, Strand.members_mk, List.append_nil,
        List.mem_cons, List.not_mem_nil] at inside ⊢
      tauto
  · exact listed.typed

theorem join (listed : Listed heap layout) {cycle object : ι} {nodes : List (ListNode ι)}
    {last : Option (ListNode ι)} (place : layout.current = [⟨.object cycle, nodes, last⟩])
    (fresh : .object object ∉ Strand.all layout.strands)
    (held : heap.allocated object = true)
    (next : heap'.next = Function.update (Function.update heap.next (.object object)
      (heap.next (.object cycle))) (.object cycle) (some (.object object)))
    (previous : heap'.previous = Function.update heap.previous (.object object) none)
    (allocated : heap'.allocated = heap.allocated) (typed : heap'.typed = heap.typed) :
    Listed heap' { layout with current := [⟨.object cycle, .object object :: nodes, last⟩] } := by
  have order := Layout.current_first
    { layout with current := [⟨.object cycle, .object object :: nodes, last⟩] }
  have threaded := listed.threaded.perm layout.current_first
  rw [place, List.singleton_append] at threaded
  have away := fresh
  rw [Strand.mem_perm layout.current_first, place, List.singleton_append] at away
  have joined := (threaded.insert away).perm order.symm
  rw [← next] at joined
  apply listed.add object joined
  · intro node
    simp only [Layout.mem_strands, Layout.mem_others, place]
    simp only [Strand.all_cons, Strand.all_nil, Strand.members_mk, List.append_nil,
      List.mem_cons]
    tauto
  · intro node outside
    rw [next, Function.update_of_ne, Function.update_of_ne]
    · rintro rfl
      apply outside
      simp [Layout.mem_strands, Layout.mem_others]
    · rintro rfl
      apply outside
      simp [Layout.mem_strands, Layout.mem_others]
  · exact allocated
  · exact held
  · intro other inside
    rw [previous]
    by_cases equal : other = object
    · subst equal
      exact Function.update_self _ _ _
    · have different : ListNode.object other ≠ .object object := by simp [equal]
      rw [Function.update_of_ne different]
      apply listed.detached
      simp only [Layout.mem_others, place] at inside ⊢
      simp only [Strand.all_cons, Strand.all_nil, Strand.members_mk, List.append_nil,
        List.mem_cons] at inside ⊢
      tauto
  · rw [typed]
    exact listed.typed

theorem home (listed : Listed heap layout) (none : layout.roots = []) :
    Listed (heap.setPrevious .roots (some .roots)) layout ∧
      Doubly (heap.setPrevious .roots (some .roots)) layout := by
  refine ⟨⟨listed.threaded, listed.unlisted, listed.owned, ?_, listed.typed⟩, ?_⟩
  · intro object member
    have different : ListNode.object object ≠ .roots := by simp
    simp only [Heap.setPrevious, Function.update_of_ne different]
    exact listed.detached object member
  · simp only [Doubly, none, List.reverse_nil, Chain, Heap.setPrevious, Function.update_self]

theorem free (listed : Listed heap layout) {object : ι}
    (fresh : .object object ∉ Strand.all layout.strands) : Listed (heap.free object) layout := by
  refine ⟨listed.threaded, ?_, ?_, listed.detached, listed.typed⟩
  · intro other outside held
    simp only [Heap.free, Function.update_apply] at held
    split at held
    · exact absurd held (by simp)
    · exact listed.unlisted other outside held
  · intro other inside
    have different : other ≠ object := by
      rintro rfl
      exact fresh inside
    simp only [Heap.free, Function.update_of_ne different]
    exact listed.owned other inside

/-- `f_allocate`. -/
theorem allocate (listed : Listed heap layout) {object : ι}
    (free : heap.allocated object = false) : Listed (heap.allocate object) layout := by
  have fresh : .object object ∉ Strand.all layout.strands := by
    intro inside
    simp [listed.owned object inside] at free
  refine ⟨listed.threaded.update _ fresh, ?_, ?_, listed.detached, ?_⟩
  · intro other outside held
    by_cases equal : other = object
    · subst equal
      exact Function.update_self _ _ _
    · have different : ListNode.object other ≠ .object object := by simp [equal]
      simp only [Heap.allocate, Heap.setNext, Function.update_of_ne different,
        Function.update_of_ne equal] at held ⊢
      exact listed.unlisted other outside held
  · intro other inside
    simp only [Heap.allocate, Function.update_apply]
    split
    · rfl
    · exact listed.owned other inside
  · intro other inside
    simp only [Heap.allocate, Function.update_apply]
    split
    · rfl
    · exact listed.typed other inside

end Listed

end Xemmai.Collector
