import Xemmai.Collector
import Xemmai.References
import Xemmai.Spread

/-!
# The colours in the trial deletion

What the passes that prescan, mark and scan make of the colours and of the cyclic
counts when the fields do not change and the counts are exact. Each pass has an
invariant with its stack as an exception, which its step keeps.
-/

namespace Xemmai.Collector

set_option autoImplicit false

variable {ι : Type} [DecidableEq ι]

theorem Word.down_iterate {count : Nat} (times : Nat) (enough : times ≤ count)
    (bound : count < 2 ^ 64) : Word.down^[times] count = count - times := by
  induction times with
  | zero => rfl
  | succ times ih =>
    rw [Function.iterate_succ_apply', ih (Nat.le_of_succ_le enough)]
    simp only [Word.down]
    omega

/-- The objects of a heap are those of a graph, with exact counts. -/
structure Counted (graph : References ι) (freed : List ι) (heap : Heap ι) : Prop where
  live : ∀ object, heap.live object = true ↔ object ∈ graph.live
  count : ∀ object ∈ graph.live, heap.count object = graph.count object
  bound : ∀ object ∈ graph.live, graph.count object < 2 ^ 64
  calm : ∀ object ∈ graph.garbage, heap.reviving object = false
  freed : heap.freed = freed

def Heap.Alike (heap heap' : Heap ι) : Prop :=
  heap'.count = heap.count ∧ heap'.typed = heap.typed ∧ heap'.allocated = heap.allocated ∧
    heap'.reviving = heap.reviving ∧ heap'.freed = heap.freed

theorem Counted.alike {graph : References ι} {freed : List ι} {heap heap' : Heap ι}
    (counted : Counted graph freed heap) (alike : heap.Alike heap') :
    Counted graph freed heap' := by
  obtain ⟨count, typed, allocated, reviving, same⟩ := alike
  refine ⟨?_, ?_, counted.bound, ?_, same.trans counted.freed⟩
  · intro object
    have live : heap'.live object = heap.live object := by
      simp only [Heap.live, typed, allocated]
    rw [live]
    exact counted.live object
  · rw [count]
    exact counted.count
  · rw [reviving]
    exact counted.calm

def Heap.Known (heap : Heap ι) (object : ι) : Prop :=
  heap.color object = .black ∨ heap.color object = .purple

instance (heap : Heap ι) (object : ι) : Decidable (heap.Known object) :=
  inferInstanceAs (Decidable (_ ∨ _))

/-- The prescan goes from one object to another. -/
def Prescans (graph : References ι) (heap : Heap ι) (object child : ι) : Prop :=
  child ∈ graph.fields object ∧ ¬ heap.Known child

/-- The prescan comes from some objects to what an earlier collection has left gray. -/
def Awaited (graph : References ι) (heap : Heap ι) (starts : ι → Prop) : Prop :=
  ∀ object ∈ graph.subgraph, heap.color object = .gray →
    ∃ start, starts start ∧ Relation.ReflTransGen (Prescans graph heap) start object

/-- The trial counts after the references of some objects have been taken away. -/
structure Marked (graph : References ι) (heap : Heap ι) (done : Finset ι)
    (pending : List ι) : Prop where
  inside : ∀ object, object ∈ done ∨ object ∈ pending → object ∈ graph.subgraph
  gray : ∀ object ∈ graph.subgraph,
    heap.color object = .gray ↔ object ∈ done ∨ object ∈ pending
  fresh : ∀ object ∈ pending, object ∉ done
  spread : ∀ object ∈ done, ∀ child ∈ graph.fields object, heap.color child = .gray
  cyclic : ∀ object ∈ graph.subgraph, heap.color object = .gray →
    heap.cyclic object + References.refs graph.fields done object = graph.count object

/-- The colours while the scan goes on; the objects held have a cyclic count. -/
structure Scanned (graph : References ι) (heap : Heap ι) (pending : List ι) : Prop where
  weighed : ∀ object ∈ graph.subgraph, 0 < heap.cyclic object ↔ object ∈ graph.held
  palette : ∀ object ∈ graph.subgraph, heap.color object = .gray ∨
    heap.color object = .black ∨ heap.color object = .whiting ∨ heap.color object = .white
  kept : ∀ object ∈ graph.subgraph, heap.color object = .black → object ∈ graph.kept
  light : ∀ object ∈ graph.subgraph, heap.color object = .whiting ∨
    heap.color object = .white → object ∉ graph.held
  whiting : ∀ object ∈ graph.subgraph, heap.color object = .whiting → object ∈ pending
  black : ∀ object ∈ graph.subgraph, heap.color object = .black → object ∈ pending ∨
    ∀ child ∈ graph.fields object, heap.color child = .black
  white : ∀ object ∈ graph.subgraph, heap.color object = .white →
    ∀ child ∈ graph.fields object, heap.color child ≠ .gray

theorem reaches_cut {α : Type} {steps steps' : α → α → Prop} {cut : α → Prop}
    (either : ∀ first second, steps first second → cut second ∨ steps' first second)
    {first last : α} (way : Relation.ReflTransGen steps first last) :
    Relation.ReflTransGen steps' first last ∨
      ∃ middle, cut middle ∧ Relation.ReflTransGen steps' middle last := by
  induction way with
  | refl => exact Or.inl .refl
  | tail _ step ih =>
    rcases either _ _ step with here | clear
    · exact Or.inr ⟨_, here, .refl⟩
    · rcases ih with whole | ⟨middle, cut, rest⟩
      · exact Or.inl (whole.tail clear)
      · exact Or.inr ⟨middle, cut, rest.tail clear⟩

section Prescan

variable {graph : References ι} {heap : Heap ι}

omit [DecidableEq ι] in
theorem Awaited.painted {heap' : Heap ι} {starts starts' : ι → Prop} (painted : ι → Prop)
    (awaited : Awaited graph heap starts)
    (known : ∀ object, heap'.Known object → heap.Known object ∨ painted object)
    (gray : ∀ object, heap'.color object = .gray → heap.color object = .gray)
    (stacked : ∀ object, painted object → starts' object)
    (kept : ∀ start, starts start → starts' start ∨
      ∀ object, heap.color object = .gray →
        Relation.ReflTransGen (Prescans graph heap) start object →
          ∃ child, painted child ∧ Relation.ReflTransGen (Prescans graph heap) child object) :
    Awaited graph heap' starts' := by
  have either : ∀ object child, Prescans graph heap object child →
      painted child ∨ Prescans graph heap' object child := by
    intro object child ⟨field, unknown⟩
    by_cases now : heap'.Known child
    · exact Or.inl ((known child now).resolve_left unknown)
    · exact Or.inr ⟨field, now⟩
  intro object inside dark
  obtain ⟨start, first, way⟩ := awaited object inside (gray object dark)
  obtain ⟨start, first, way⟩ : ∃ start, starts' start ∧
      Relation.ReflTransGen (Prescans graph heap) start object := by
    rcases kept start first with still | left
    · exact ⟨start, still, way⟩
    · obtain ⟨child, here, rest⟩ := left object (gray object dark) way
      exact ⟨child, stacked child here, rest⟩
  rcases reaches_cut either way with clear | ⟨middle, here, rest⟩
  · exact ⟨start, first, clear⟩
  · exact ⟨middle, stacked middle here, rest⟩

theorem prescanned_step {object : ι} {stack : List ι} {after : Walk ι}
    (taken : (graph.fields object).foldl Walk.prescanBlackPush ⟨heap, stack⟩ = after)
    {starts : ι → Prop}
    (awaited : Awaited graph heap fun other => other ∈ object :: stack ∨ starts other)
    (known : ∀ other ∈ object :: stack, heap.Known other) (nodup : stack.Nodup) :
    heap.Alike after.heap ∧
      (∀ other, after.heap.color other = .purple ↔ heap.color other = .purple) ∧
      (∀ other ∈ after.stack, other ∈ graph.fields object ∨ other ∈ stack) ∧
      after.stack.Nodup ∧ (∀ other ∈ after.stack, after.heap.Known other) ∧
      Awaited graph after.heap fun other => other ∈ after.stack ∨ starts other := by
  obtain ⟨pushed, result, nodup', members⟩ := @foldl_paintPush ι _
    (fun color => ¬ (color = .black ∨ color = .purple)) (fun _ => true)
    (fun _ _ => .black) (fun _ _ => rfl) (fun _ _ => rfl)
    (graph.fields object) ⟨heap, stack⟩
  obtain rfl := result.symm.trans taken
  have found : ∀ other, other ∈ pushed ↔ other ∈ graph.fields object ∧ ¬ heap.Known other := by
    intro other
    simp only [members, decide_eq_true_eq, and_true, Heap.Known]
  have color : ∀ other, (spread (fun color => ¬ (color = .black ∨ color = .purple))
      (fun _ _ => .black) (graph.fields object) heap).color other =
        if other ∈ graph.fields object ∧ ¬ heap.Known other then .black
        else heap.color other := by
    intro other
    simp only [spread, decide_eq_true_eq]
    exact if_congr Iff.rfl rfl rfl
  have alike : heap.Alike (spread (fun color => ¬ (color = .black ∨ color = .purple))
      (fun _ _ => .black) (graph.fields object) heap) := ⟨rfl, rfl, rfl, rfl, rfl⟩
  simp only
  generalize spread _ _ _ heap = heap' at color alike
  have grows : ∀ other, heap'.Known other ↔
      heap.Known other ∨ other ∈ graph.fields object := by
    intro other
    unfold Heap.Known
    rw [color]
    split
    · rename_i chosen
      simp [chosen.1]
    · rename_i still
      exact ⟨Or.inl, fun either => either.elim id fun child =>
        by_contra fun unknown => still ⟨child, unknown⟩⟩
  refine ⟨alike, ?_, ?_, ?_, ?_, ?_⟩
  · intro other
    rw [color]
    split
    · rename_i chosen
      exact ⟨(by simp), fun purple => absurd (Or.inr purple) chosen.2⟩
    · rfl
  · intro other member
    rcases List.mem_append.mp member with member | member
    · exact Or.inl ((found other).mp member).1
    · exact Or.inr member
  · refine List.nodup_append.mpr ⟨nodup', nodup, ?_⟩
    rintro other member _ stacked rfl
    exact ((found other).mp member).2 (known other (List.mem_cons_of_mem _ stacked))
  · intro other member
    refine (grows other).mpr ?_
    rcases List.mem_append.mp member with member | member
    · exact Or.inr ((found other).mp member).1
    · exact Or.inl (known other (List.mem_cons_of_mem _ member))
  · refine awaited.painted (· ∈ pushed) ?_ ?_ ?_ ?_
    · intro other now
      refine ((grows other).mp now).elim Or.inl fun field => ?_
      by_cases old : heap.Known other
      · exact Or.inl old
      · exact Or.inr ((found other).mpr ⟨field, old⟩)
    · intro other dark
      rw [color] at dark
      split at dark
      · cases dark
      · exact dark
    · exact fun other member => Or.inl (List.mem_append_left _ member)
    · rintro start (member | later)
      · rcases List.mem_cons.mp member with rfl | member
        · refine Or.inr fun other dark way => ?_
          rcases Relation.ReflTransGen.cases_head way with rfl | ⟨child, first, rest⟩
          · rcases known start List.mem_cons_self with shade | shade <;> rw [dark] at shade <;>
              cases shade
          · exact ⟨child, (found child).mpr first, rest⟩
        · exact Or.inl (Or.inl (List.mem_append_right _ member))
      · exact Or.inl (Or.inr later)

end Prescan

section Mark

variable {graph : References ι} {freed : List ι} {heap : Heap ι} {done : Finset ι}

theorem Marked.live {pending : List ι} (marked : Marked graph heap done pending) {object : ι}
    (member : object ∈ done ∨ object ∈ pending) : object ∈ graph.live :=
  References.subgraph_live (marked.inside object member)

theorem Marked.reaches (marked : Marked graph heap done []) {object target : ι}
    (member : object ∈ done) (leads : References.Reaches graph.fields object target) :
    target ∈ done := by
  refine References.Closed.reaches ?_ member leads
  intro other inside child field
  have place := References.subgraph_closed other (marked.inside other (Or.inl inside)) child field
  exact ((marked.gray child place).mp (marked.spread other inside child field)).resolve_right
    List.not_mem_nil

theorem marked_root {root : ι} (marked : Marked graph heap done [])
    (counted : Counted graph freed heap) (inside : root ∈ graph.subgraph)
    (fresh : heap.color root ≠ .gray) :
    Marked graph (heap.markGray root) done [root] ∧ heap.Alike (heap.markGray root) := by
  have color : ∀ other, (heap.markGray root).color other =
      if other = root then .gray else heap.color other := by
    intro other
    simp only [Heap.markGray, Heap.setCyclic, Heap.paint, Function.update_apply]
  have cyclic : ∀ other, (heap.markGray root).cyclic other =
      if other = root then heap.count root else heap.cyclic other := by
    intro other
    simp only [Heap.markGray, Heap.setCyclic, Heap.paint, Function.update_apply]
  have outside : root ∉ done := fun member =>
    fresh ((marked.gray root inside).mpr (Or.inl member))
  refine ⟨⟨?_, ?_, ?_, ?_, ?_⟩, rfl, rfl, rfl, rfl, rfl⟩
  · intro object member
    rcases member with member | member
    · exact marked.inside object (Or.inl member)
    · rw [List.mem_singleton.mp member]
      exact inside
  · intro object place
    rw [color, List.mem_singleton]
    split
    · simp [*]
    · rename_i other
      rw [marked.gray object place]
      simp [other]
  · intro object member
    rw [List.mem_singleton.mp member]
    exact outside
  · intro object member child field
    rw [color]
    split
    · rfl
    · exact marked.spread object member child field
  · intro object place shade
    rw [cyclic]
    split
    · rename_i same
      subst same
      have none : References.refs graph.fields done object = 0 :=
        References.refs_eq_zero fun other member field =>
          fresh (marked.spread other member object field)
      rw [none, Nat.add_zero]
      exact counted.count object (References.subgraph_live inside)
    · rename_i other
      rw [color, if_neg other] at shade
      exact marked.cyclic object place shade

theorem marked_step {object : ι} {stack : List ι} {after : Walk ι}
    (taken : (graph.fields object).foldl Walk.markGrayPush ⟨heap, stack⟩ = after)
    (marked : Marked graph heap done (object :: stack)) (counted : Counted graph freed heap)
    (nodup : (object :: stack).Nodup) :
    heap.Alike after.heap ∧ Marked graph after.heap (insert object done) after.stack ∧
      after.stack.Nodup ∧ object ∉ after.stack ∧
      (∀ other ∈ after.stack, other ∈ graph.fields object ∨ other ∈ stack) ∧
      (∀ other, heap.color other = .gray → after.heap.color other = .gray) ∧
      (∀ other, after.heap.color other = .purple → heap.color other = .purple) := by
  obtain ⟨pushed, result, nodup', members⟩ :=
    foldl_markGrayPush (graph.fields object) ⟨heap, stack⟩
  obtain rfl := result.symm.trans taken
  simp only at members ⊢
  have inside := marked.inside object (Or.inr List.mem_cons_self)
  have fields : ∀ child ∈ graph.fields object, child ∈ graph.subgraph :=
    References.subgraph_closed object inside
  have gray : ∀ other ∈ graph.subgraph,
      (if other ∈ graph.fields object then .gray else heap.color other) = Color.gray ↔
        other ∈ graph.fields object ∨ other ∈ done ∨ other ∈ object :: stack := by
    intro other place
    rw [← marked.gray other place]
    split <;> simp [*]
  have shade : heap.color object = .gray :=
    (marked.gray object inside).mpr (Or.inr List.mem_cons_self)
  have fresh : object ∉ done := marked.fresh object List.mem_cons_self
  refine ⟨⟨rfl, rfl, rfl, rfl, rfl⟩, ⟨?_, ?_, ?_, ?_, ?_⟩, ?_, ?_, ?_, ?_, ?_⟩
  · intro other member
    simp only [Finset.mem_insert, List.mem_append] at member
    rcases member with (rfl | member) | member | member
    · exact inside
    · exact marked.inside other (Or.inl member)
    · exact fields other ((members other).mp member).1
    · exact marked.inside other (Or.inr (List.mem_cons_of_mem _ member))
  · intro other place
    rw [gray other place]
    simp only [Finset.mem_insert, List.mem_append, List.mem_cons, members, ne_eq]
    have old := marked.gray other place
    rw [List.mem_cons] at old
    by_cases dark : heap.color other = .gray <;> tauto
  · intro other member absent
    rcases Finset.mem_insert.mp absent with rfl | absent
    · rcases List.mem_append.mp member with member | member
      · exact ((members other).mp member).2 shade
      · exact (List.nodup_cons.mp nodup).1 member
    · rcases List.mem_append.mp member with member | member
      · have place := marked.inside other (Or.inl absent)
        exact ((members other).mp member).2 ((marked.gray other place).mpr (Or.inl absent))
      · exact marked.fresh other (List.mem_cons_of_mem _ member) absent
  · intro other member child field
    simp only
    rcases Finset.mem_insert.mp member with rfl | member
    · rw [if_pos field]
    · rw [marked.spread other member child field]
      exact ite_self _
  · intro other place dark
    have subset : insert object done ⊆ graph.live := by
      intro one member
      apply marked.live
      rcases Finset.mem_insert.mp member with rfl | member
      · exact Or.inr List.mem_cons_self
      · exact Or.inl member
    have most := References.refs_mono graph.fields other subset
    have total : References.refs graph.fields graph.live other ≤ graph.count other :=
      Nat.le_add_right _ _
    have bound := counted.bound other (References.subgraph_live place)
    rw [References.refs_insert fresh] at most ⊢
    have base : (if other ∈ graph.fields object ∧ heap.color other ≠ .gray then heap.count other
        else heap.cyclic other) + References.refs graph.fields done other =
          graph.count other := by
      split
      · rename_i chosen
        have none : References.refs graph.fields done other = 0 :=
          References.refs_eq_zero fun one member field =>
            chosen.2 (marked.spread one member other field)
        rw [none, Nat.add_zero]
        exact counted.count other (References.subgraph_live place)
      · rename_i still
        apply marked.cyclic other place
        by_contra light
        simp only at dark
        split at dark
        · exact still ⟨by assumption, light⟩
        · exact light dark
    simp only
    rw [Word.down_iterate _ (by omega) (by omega)]
    omega
  · refine List.nodup_append.mpr ⟨nodup', (List.nodup_cons.mp nodup).2, ?_⟩
    rintro other member _ stacked rfl
    have place := marked.inside other (Or.inr (List.mem_cons_of_mem _ stacked))
    exact ((members other).mp member).2
      ((marked.gray other place).mpr (Or.inr (List.mem_cons_of_mem _ stacked)))
  · intro member
    rcases List.mem_append.mp member with member | member
    · exact ((members object).mp member).2 shade
    · exact (List.nodup_cons.mp nodup).1 member
  · intro other member
    rcases List.mem_append.mp member with member | member
    · exact Or.inl ((members other).mp member).1
    · exact Or.inr member
  · intro other dark
    simp only [dark, ite_self]
  · intro other purple
    split at purple
    · cases purple
    · exact purple

end Mark

section Scan

variable {graph : References ι} {heap : Heap ι}

theorem scanned_start (marked : Marked graph heap graph.subgraph []) : Scanned graph heap [] := by
  have gray : ∀ object ∈ graph.subgraph, heap.color object = .gray :=
    fun object member => (marked.gray object member).mpr (Or.inl member)
  refine ⟨?_, fun object member => Or.inl (gray object member), ?_, ?_, ?_, ?_, ?_⟩
  · intro object member
    have sum := marked.cyclic object member (gray object member)
    rw [References.mem_held]
    constructor
    · exact fun some' => ⟨member, by omega⟩
    · rintro ⟨_, more⟩
      omega
  all_goals
    intro object member shade
    rw [gray object member] at shade
    simp at shade

/-- Once nothing is pending and no root is gray, the white objects are the garbage. -/
theorem Scanned.white_iff (scanned : Scanned graph heap [])
    (roots : ∀ root ∈ graph.roots, ∃ source ∈ graph.subgraph,
      heap.color source ≠ .gray ∧ References.Reaches graph.fields source root)
    {object : ι} (member : object ∈ graph.subgraph) :
    (heap.color object = .white ↔ object ∈ graph.garbage) ∧
      (heap.color object = .black ↔ object ∉ graph.garbage) := by
  have still : ∀ object ∈ graph.subgraph, heap.color object ≠ .whiting :=
    fun object member shade => List.not_mem_nil (scanned.whiting object member shade)
  have black : ∀ {object target}, object ∈ graph.subgraph → heap.color object = .black →
      References.Reaches graph.fields object target →
      target ∈ graph.subgraph ∧ heap.color target = .black := by
    intro object target inside shade leads
    induction leads with
    | refl => exact ⟨inside, shade⟩
    | tail _ child ih =>
      exact ⟨References.subgraph_closed _ ih.1 _ child,
        (scanned.black _ ih.1 ih.2).resolve_left List.not_mem_nil _ child⟩
  have seen : ∀ {object target}, object ∈ graph.subgraph → heap.color object ≠ .gray →
      References.Reaches graph.fields object target →
      target ∈ graph.subgraph ∧ heap.color target ≠ .gray := by
    intro object target inside shade leads
    induction leads with
    | refl => exact ⟨inside, shade⟩
    | @tail other target _ child ih =>
      refine ⟨References.subgraph_closed _ ih.1 _ child, ?_⟩
      rcases scanned.palette other ih.1 with dark | dark | dark | dark
      · exact absurd dark ih.2
      · rw [(scanned.black other ih.1 dark).resolve_left List.not_mem_nil _ child]
        nofun
      · exact absurd dark (still other ih.1)
      · exact scanned.white other ih.1 dark _ child
  have both : ∀ object ∈ graph.subgraph,
      heap.color object = .black ∨ heap.color object = .white := by
    intro object inside
    obtain ⟨_, root, start, leads⟩ := References.mem_subgraph.mp inside
    obtain ⟨source, place, shade, way⟩ := roots root start
    rcases scanned.palette object inside with dark | dark | dark | dark
    · exact absurd dark (seen place shade (way.trans leads)).2
    · exact Or.inl dark
    · exact absurd dark (still object inside)
    · exact Or.inr dark
  have kept : heap.color object = .black ↔ object ∈ graph.kept := by
    refine ⟨scanned.kept object member, ?_⟩
    intro inside
    obtain ⟨_, holder, held, leads⟩ := References.mem_kept.mp inside
    have place := (References.mem_held.mp held).1
    have shade := (both holder place).resolve_right
      fun white => scanned.light holder place (Or.inr white) held
    exact (black place shade leads).2
  have lost : object ∈ graph.garbage ↔ object ∉ graph.kept := by
    rw [References.mem_garbage]
    exact and_iff_right member
  rw [lost, not_not]
  refine ⟨?_, kept⟩
  rw [← kept]
  constructor
  · intro white black
    rw [white] at black
    cases black
  · exact (both object member).resolve_left

def Shaded (heap : Heap ι) (stack : List ι) : Prop :=
  ∀ object ∈ stack, heap.color object = .black ∨ heap.color object = .whiting

theorem scanned_root (scanned : Scanned graph heap []) {root : ι}
    (held : root ∈ graph.held) : Scanned graph (heap.paint root .black) [root] := by
  have color : ∀ other, (heap.paint root .black).color other =
      if other = root then .black else heap.color other := by
    intro other
    simp only [Heap.paint, Function.update_apply]
  have black : ∀ other, heap.color other = .black →
      (heap.paint root .black).color other = .black := by
    intro other dark
    rw [color]
    split
    · rfl
    · exact dark
  have old : ∀ other shade, (heap.paint root .black).color other = shade → shade ≠ .black →
      other ≠ root ∧ heap.color other = shade := by
    intro other shade same light
    rw [color] at same
    split at same
    · exact absurd same.symm light
    · rename_i different
      exact ⟨different, same⟩
  refine ⟨scanned.weighed, ?_, ?_, ?_, ?_, ?_, ?_⟩
  · intro other place
    rw [color]
    split
    · exact Or.inr (Or.inl rfl)
    · exact scanned.palette other place
  · intro other place dark
    rw [color] at dark
    split at dark
    · rename_i same
      rw [same]
      exact References.held_kept held
    · exact scanned.kept other place dark
  · intro other place pale
    refine scanned.light other place ?_
    exact pale.imp (fun shade => (old other .whiting shade (by simp)).2) fun shade =>
      (old other .white shade (by simp)).2
  · intro other place waits
    exact absurd (scanned.whiting other place (old other _ waits (by simp)).2) List.not_mem_nil
  · intro other place dark
    by_cases same : other = root
    · exact Or.inl (List.mem_singleton.mpr same)
    · rw [color, if_neg same] at dark
      have closed := (scanned.black other place dark).resolve_left List.not_mem_nil
      exact Or.inr fun child field => black child (closed child field)
  · intro other place pale child field dark
    exact scanned.white other place (old other _ pale (by simp)).2 child field
      (old child _ dark (by simp)).2

theorem Scanned.more (scanned : Scanned graph heap []) (pending : List ι) :
    Scanned graph heap pending where
  weighed := scanned.weighed
  palette := scanned.palette
  kept := scanned.kept
  light := scanned.light
  whiting object member shade :=
    absurd (scanned.whiting object member shade) List.not_mem_nil
  black object member shade :=
    Or.inr ((scanned.black object member shade).resolve_left List.not_mem_nil)
  white := scanned.white

/-- What a step on a black object does: its fields are black, and are looked at besides those that
wait to be white. -/
structure Blackened (graph : References ι) (heap : Heap ι) (object : ι) (pushed : List ι)
    (heap' : Heap ι) : Prop where
  alike : heap.Alike heap'
  cyclic : heap'.cyclic = heap.cyclic
  found : Pushed (fun other => other ∈ graph.fields object ∧ heap.color other ≠ .black ∧
    heap.color other ≠ .whiting) pushed
  color : ∀ other, heap'.color other =
    if other ∈ graph.fields object then .black else heap.color other

theorem blackened {object : ι} {stack : List ι} {pushes : Color → Bool} {after : Walk ι}
    (taken : (graph.fields object).foldl (Walk.paintPush (· ≠ .black) pushes fun _ _ => .black)
      ⟨heap, stack⟩ = after) (inside : object ∈ graph.subgraph)
    (chosen : ∀ other ∈ graph.subgraph,
      pushes (heap.color other) = true ↔ heap.color other ≠ .whiting) :
    ∃ pushed, after.stack = pushed ++ stack ∧
      Blackened graph heap object pushed after.heap := by
  obtain ⟨pushed, result, nodup, members⟩ := @foldl_paintPush ι _
    (fun color => color ≠ .black) pushes (fun _ _ => .black) (fun _ _ => rfl) (fun _ _ => rfl)
    (graph.fields object) ⟨heap, stack⟩
  obtain rfl := result.symm.trans taken
  have fields : ∀ child ∈ graph.fields object, child ∈ graph.subgraph :=
    References.subgraph_closed object inside
  refine ⟨pushed, rfl, ⟨rfl, rfl, rfl, rfl, rfl⟩, rfl, ⟨nodup, ?_⟩, ?_⟩
  · intro other
    simp only [members, decide_eq_true_eq]
    constructor
    · rintro ⟨child, light, more⟩
      exact ⟨child, light, (chosen other (fields other child)).mp more⟩
    · rintro ⟨child, light, more⟩
      exact ⟨child, light, (chosen other (fields other child)).mpr more⟩
  · intro other
    simp only [spread, decide_eq_true_eq]
    by_cases black : heap.color other = .black
    · simp [black]
    · simp [black]

namespace Blackened

variable {object : ι} {pushed stack : List ι} {heap' : Heap ι}

theorem same (blackened : Blackened graph heap object pushed heap') (other : ι) :
    heap'.color other = heap.color other ∨ heap'.color other = .black := by
  rw [blackened.color]
  split
  · exact Or.inr rfl
  · exact Or.inl rfl

theorem old (blackened : Blackened graph heap object pushed heap') {other : ι}
    (light : heap'.color other ≠ .black) : heap.color other = heap'.color other :=
  ((blackened.same other).resolve_right light).symm

theorem scanned (blackened : Blackened graph heap object pushed heap')
    (scanned : Scanned graph heap (object :: stack)) (inside : object ∈ graph.subgraph)
    (shade : heap.color object = .black) : Scanned graph heap' (pushed ++ stack) := by
  refine ⟨?_, ?_, ?_, ?_, ?_, ?_, ?_⟩
  · rw [blackened.cyclic]
    exact scanned.weighed
  · intro other place
    rcases blackened.same other with equal | equal
    · rw [equal]
      exact scanned.palette other place
    · exact Or.inr (Or.inl equal)
  · intro other place dark
    rw [blackened.color] at dark
    split at dark
    · rename_i child
      exact References.kept_closed object (scanned.kept object inside shade) other child
    · exact scanned.kept other place dark
  · intro other place light
    have differs : heap'.color other ≠ .black := by
      rintro dark
      rw [dark] at light
      simp at light
    rw [← blackened.old differs] at light
    exact scanned.light other place light
  · intro other place light
    have differs : heap'.color other ≠ .black := by
      rw [light]
      simp
    have before := (blackened.old differs).trans light
    have member := scanned.whiting other place before
    refine List.mem_append_right _ ((List.mem_cons.mp member).resolve_left ?_)
    rintro rfl
    rw [shade] at before
    cases before
  · intro other place dark
    by_cases here : other = object
    · subst here
      exact Or.inr fun child field => by rw [blackened.color, if_pos field]
    · by_cases before : heap.color other = .black
      · rcases scanned.black other place before with member | closed
        · exact Or.inl (List.mem_append_right _ ((List.mem_cons.mp member).resolve_left here))
        · refine Or.inr fun child field => ?_
          rcases blackened.same child with equal | equal
          · exact equal.trans (closed child field)
          · exact equal
      · by_cases waits : heap.color other = .whiting
        · have member := scanned.whiting other place waits
          exact Or.inl (List.mem_append_right _ ((List.mem_cons.mp member).resolve_left here))
        · have child : other ∈ graph.fields object := by
            by_contra out
            rw [blackened.color, if_neg out] at dark
            exact before dark
          have looked := (blackened.found.2 other).mpr ⟨child, before, waits⟩
          exact Or.inl (List.mem_append_left _ looked)
  · intro other place light child field
    have differs : heap'.color other ≠ .black := by
      rw [light]
      simp
    have before := scanned.white other place ((blackened.old differs).trans light) child field
    rcases blackened.same child with equal | equal
    · rw [equal]
      exact before
    · rw [equal]
      simp

theorem shaded (blackened : Blackened graph heap object pushed heap') (shaded : Shaded heap stack) :
    Shaded heap' (pushed ++ stack) := by
  intro other member
  rcases List.mem_append.mp member with member | member
  · left
    rw [blackened.color, if_pos ((blackened.found.2 other).mp member).1]
  · rcases blackened.same other with equal | equal
    · rw [equal]
      exact shaded other member
    · exact Or.inl equal

end Blackened


/-- A step on a black object makes what it refers to black. -/
theorem scanned_black {object : ι} {stack : List ι} {pushes : Color → Bool} {after : Walk ι}
    (taken : (graph.fields object).foldl (Walk.paintPush (· ≠ .black) pushes fun _ _ => .black)
      ⟨heap, stack⟩ = after)
    (scanned : Scanned graph heap (object :: stack)) (inside : object ∈ graph.subgraph)
    (shade : heap.color object = .black) (shaded : Shaded heap stack) (nodup : stack.Nodup)
    (chosen : ∀ other ∈ graph.subgraph,
      pushes (heap.color other) = true ↔ heap.color other ≠ .whiting) :
    heap.Alike after.heap ∧ Scanned graph after.heap after.stack ∧
      Shaded after.heap after.stack ∧ after.stack.Nodup ∧
      (∀ other ∈ after.stack, other ∈ graph.fields object ∨ other ∈ stack) ∧
      (∀ other, after.heap.color other = heap.color other ∨
        after.heap.color other = .black) := by
  obtain ⟨pushed, stacked, blackened⟩ := blackened taken inside chosen
  obtain ⟨nodup', found⟩ := blackened.found
  rw [stacked]
  refine ⟨blackened.alike, blackened.scanned scanned inside shade, blackened.shaded shaded, ?_, ?_,
    blackened.same⟩
  · refine List.nodup_append.mpr ⟨nodup', nodup, ?_⟩
    rintro other member _ stacked rfl
    obtain ⟨_, first, second⟩ := (found other).mp member
    rcases shaded other stacked with dark | dark
    · exact first dark
    · exact second dark
  · intro other member
    rcases List.mem_append.mp member with member | member
    · exact Or.inl ((found other).mp member).1
    · exact Or.inr member

/-- What a step on an object without a cyclic count does: the gray fields are black where they
are counted from outside, and else wait to be white. -/
structure Whitened (graph : References ι) (heap : Heap ι) (object : ι) (pushed : List ι)
    (heap' : Heap ι) : Prop where
  alike : heap.Alike heap'
  cyclic : heap'.cyclic = heap.cyclic
  here : heap'.color object = .white
  found : Pushed (fun other => other ∈ graph.fields object ∧ other ≠ object ∧
    heap.color other = .gray) pushed
  others : ∀ other, other ≠ object → (other ∈ pushed ∧
    heap'.color other = if heap.cyclic other > 0 then .black else .whiting) ∨
      (heap'.color other = heap.color other ∧
        (other ∈ graph.fields object → heap.color other ≠ .gray))

theorem whitened {object : ι} {stack : List ι} {after : Walk ι}
    (taken : (graph.fields object).foldl Walk.scanGrayPush
      ⟨heap.paint object .white, stack⟩ = after) :
    ∃ pushed, after.stack = pushed ++ stack ∧
      Whitened graph heap object pushed after.heap := by
  obtain ⟨pushed, result, nodup, members⟩ := @foldl_paintPush ι _
    (fun color => color = .gray) (fun _ => true)
    (fun heap object => if heap.cyclic object > 0 then Color.black else .whiting)
    (fun heap object => by
      split <;> rfl) (fun _ _ => rfl)
    (graph.fields object) ⟨heap.paint object .white, stack⟩
  obtain rfl := result.symm.trans taken
  have painted : ∀ other, (heap.paint object .white).color other =
      if other = object then .white else heap.color other := by
    intro other
    simp only [Heap.paint, Function.update_apply]
  have found : ∀ other, other ∈ pushed ↔
      other ∈ graph.fields object ∧ other ≠ object ∧ heap.color other = .gray := by
    intro other
    simp only [members, painted, decide_eq_true_eq, and_true]
    by_cases same : other = object
    · simp [same]
    · simp [same]
  have color : ∀ other, (spread (fun color => color = .gray)
      (fun (heap : Heap ι) object => if heap.cyclic object > 0 then Color.black else .whiting)
      (graph.fields object) (heap.paint object .white)).color other =
        if other = object then .white
        else if other ∈ graph.fields object ∧ heap.color other = .gray then
          if heap.cyclic other > 0 then .black else .whiting
        else heap.color other := by
    intro other
    simp only [spread, painted, decide_eq_true_eq]
    by_cases same : other = object
    · simp [same]
    · simp [same, Heap.paint]
  refine ⟨pushed, rfl, ⟨rfl, rfl, rfl, rfl, rfl⟩, rfl, ?_, ⟨nodup, found⟩, ?_⟩
  · rw [color, if_pos rfl]
  · intro other different
    rw [color, if_neg different]
    split
    · rename_i chosen
      exact Or.inl ⟨(found other).mpr ⟨chosen.1, different, chosen.2⟩, rfl⟩
    · rename_i still
      exact Or.inr ⟨rfl, fun child dark => still ⟨child, dark⟩⟩

namespace Whitened

variable {object : ι} {pushed stack : List ι} {heap' : Heap ι}

theorem gray (whitened : Whitened graph heap object pushed heap') {other : ι}
    (dark : heap'.color other = .gray) : heap.color other = .gray := by
  by_cases same : other = object
  · subst same
    rw [whitened.here] at dark
    cases dark
  · rcases whitened.others other same with ⟨_, equal⟩ | ⟨equal, _⟩
    · rw [equal] at dark
      split at dark <;> cases dark
    · exact equal.symm.trans dark

theorem scanned (whitened : Whitened graph heap object pushed heap')
    (scanned : Scanned graph heap (object :: stack)) (light : heap.color object ≠ .black)
    (free : object ∉ graph.held) : Scanned graph heap' (pushed ++ stack) := by
  have here := whitened.here
  have held : ∀ other ∈ graph.subgraph, 0 < heap.cyclic other ↔ other ∈ graph.held :=
    scanned.weighed
  refine ⟨?_, ?_, ?_, ?_, ?_, ?_, ?_⟩
  · rw [whitened.cyclic]
    exact scanned.weighed
  · intro other place
    by_cases same : other = object
    · subst same
      exact Or.inr (Or.inr (Or.inr here))
    · rcases whitened.others other same with ⟨_, equal⟩ | ⟨equal, _⟩
      · rw [equal]
        split <;> simp
      · rw [equal]
        exact scanned.palette other place
  · intro other place dark
    by_cases same : other = object
    · subst same
      rw [here] at dark
      cases dark
    · rcases whitened.others other same with ⟨_, equal⟩ | ⟨equal, _⟩
      · rw [equal] at dark
        split at dark
        · rename_i some'
          exact References.held_kept ((held other place).mp some')
        · cases dark
      · exact scanned.kept other place (equal.symm.trans dark)
  · intro other place pale
    by_cases same : other = object
    · subst same
      exact free
    · rcases whitened.others other same with ⟨_, equal⟩ | ⟨equal, _⟩
      · rw [equal] at pale
        split at pale
        · simp at pale
        · rename_i none
          exact fun member => none ((held other place).mpr member)
      · rw [equal] at pale
        exact scanned.light other place pale
  · intro other place waits
    by_cases same : other = object
    · subst same
      rw [here] at waits
      cases waits
    · rcases whitened.others other same with ⟨member, _⟩ | ⟨equal, _⟩
      · exact List.mem_append_left _ member
      · have member := scanned.whiting other place (equal.symm.trans waits)
        exact List.mem_append_right _ ((List.mem_cons.mp member).resolve_left same)
  · intro other place dark
    by_cases same : other = object
    · subst same
      rw [here] at dark
      cases dark
    · rcases whitened.others other same with ⟨member, _⟩ | ⟨equal, _⟩
      · exact Or.inl (List.mem_append_left _ member)
      · rcases scanned.black other place (equal.symm.trans dark) with member | closed
        · exact Or.inl (List.mem_append_right _ ((List.mem_cons.mp member).resolve_left same))
        · refine Or.inr fun child field => ?_
          have before := closed child field
          have different : child ≠ object := by
            rintro rfl
            exact light before
          rcases whitened.others child different with ⟨member, _⟩ | ⟨equal, _⟩
          · rw [((whitened.found.2 child).mp member).2.2] at before
            cases before
          · exact equal.trans before
  · intro other place pale child field dark
    by_cases same : other = object
    · subst same
      have different : child ≠ other := by
        rintro rfl
        rw [here] at dark
        cases dark
      rcases whitened.others child different with ⟨_, equal⟩ | ⟨equal, none⟩
      · rw [equal] at dark
        split at dark <;> cases dark
      · exact none field (equal.symm.trans dark)
    · rcases whitened.others other same with ⟨_, equal⟩ | ⟨equal, _⟩
      · rw [equal] at pale
        split at pale <;> cases pale
      · exact scanned.white other place (equal.symm.trans pale) child field (whitened.gray dark)

omit [DecidableEq ι] in
theorem shaded (whitened : Whitened graph heap object pushed heap') (shaded : Shaded heap stack)
    (apart : object ∉ stack) : Shaded heap' (pushed ++ stack) := by
  intro other member
  rcases List.mem_append.mp member with member | member
  · have chosen := (whitened.found.2 other).mp member
    rcases whitened.others other chosen.2.1 with ⟨_, equal⟩ | ⟨equal, none⟩
    · rw [equal]
      split <;> simp
    · exact absurd chosen.2.2 (none chosen.1)
  · have different : other ≠ object := by
      rintro rfl
      exact apart member
    rcases whitened.others other different with ⟨_, equal⟩ | ⟨equal, _⟩
    · rw [equal]
      split <;> simp
    · rw [equal]
      exact shaded other member

end Whitened

/-- A step on an object without a cyclic count makes it white. -/
theorem scanned_white {object : ι} {stack : List ι} {after : Walk ι}
    (taken : (graph.fields object).foldl Walk.scanGrayPush
      ⟨heap.paint object .white, stack⟩ = after)
    (scanned : Scanned graph heap (object :: stack)) (light : heap.color object ≠ .black)
    (free : object ∉ graph.held) (shaded : Shaded heap stack) (nodup : (object :: stack).Nodup) :
    heap.Alike after.heap ∧ Scanned graph after.heap after.stack ∧
      Shaded after.heap after.stack ∧ after.stack.Nodup ∧
      (∀ other ∈ after.stack, other ∈ graph.fields object ∨ other ∈ stack) ∧
      after.heap.color object = .white ∧
      (∀ other, after.heap.color other = .gray → heap.color other = .gray) := by
  obtain ⟨pushed, stacked, whitened⟩ := whitened taken
  obtain ⟨apart, nodup⟩ := List.nodup_cons.mp nodup
  obtain ⟨nodup', found⟩ := whitened.found
  rw [stacked]
  refine ⟨whitened.alike, whitened.scanned scanned light free, whitened.shaded shaded apart, ?_, ?_,
    whitened.here, fun _ => whitened.gray⟩
  · refine List.nodup_append.mpr ⟨nodup', nodup, ?_⟩
    rintro other member _ stacked rfl
    have dark := ((found other).mp member).2.2
    rcases shaded other stacked with shade | shade <;> rw [dark] at shade <;> cases shade
  · intro other member
    rcases List.mem_append.mp member with member | member
    · exact Or.inl ((found other).mp member).1
    · exact Or.inr member

end Scan

end Xemmai.Collector
