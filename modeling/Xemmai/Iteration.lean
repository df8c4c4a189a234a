import Mathlib.Data.List.Nodup
import Xemmai.Worklist

/-!
# Worklist iteration in any order

The iteration taken apart into its single moves, with every choice left open: a
visit follows the edges of its node in any order, and when it is over, any node
of the queue is visited next. An edge may turn out not to be followable; then
there is no move. The moves come to an end, whatever they choose, and they leave
every edge settled that can be reached from the first node.
-/

namespace Xemmai.Worklist

set_option autoImplicit false

variable {ι σ τ : Type}

abbrev Follow (σ : Type) := σ → σ → Option (Bool × σ)

def Transfer.total (transfer : Transfer σ) : Follow σ := fun a b => some (transfer a b)

/-- The visit of `node`, of whose edges those to `rest` are still to be followed. -/
structure Visit (ι σ : Type) where
  data : ι → σ
  queue : List ι
  node : ι
  rest : List ι

namespace Visit

def Over (visit : Visit ι σ) : Prop :=
  visit.rest = [] ∧ visit.queue = []

def map (view : τ → σ) (visit : Visit ι τ) : Visit ι σ where
  data node := view (visit.data node)
  queue := visit.queue
  node := visit.node
  rest := visit.rest

end Visit

section Pending

variable {transfer : Transfer σ} {seen : σ → Bool} {successors : ι → List ι} {start : ι}

/-- Between two moves: an edge of an active node is settled, unless the node is queued or
the edge is still to come in the visit. -/
structure Pending (transfer : Transfer σ) (seen : σ → Bool) (successors : ι → List ι) (start : ι)
    (visit : Visit ι σ) : Prop where
  nodup : visit.queue.Nodup
  queued : ∀ node ∈ visit.queue, Active seen start visit.data node
  current : Active seen start visit.data visit.node
  within : ∀ target ∈ visit.rest, target ∈ successors visit.node
  settled : ∀ node, Active seen start visit.data node → node ∉ visit.queue →
    ∀ target ∈ successors node, Settled transfer visit.data node target ∨
      (node = visit.node ∧ target ∈ visit.rest)

theorem Pending.first {data : ι → σ} (fresh : ∀ node, seen (data node) = true → node = start)
    {targets : List ι} (order : targets.Perm (successors start)) :
    Pending transfer seen successors start ⟨data, [], start, targets⟩ where
  nodup := List.nodup_nil
  queued _ member := absurd member List.not_mem_nil
  current := Or.inl rfl
  within _ member := order.subset member
  settled node active _ target member := by
    have same : node = start := active.elim id (fresh node)
    subst same
    exact Or.inr ⟨rfl, order.symm.subset member⟩

theorem Pending.finished {visit : Visit ι σ}
    (pending : Pending transfer seen successors start visit)
    (ended : visit.Over) {node target : ι} (active : Active seen start visit.data node)
    (member : target ∈ successors node) : Settled transfer visit.data node target := by
  have absent : node ∉ visit.queue := by
    rw [ended.2]
    exact List.not_mem_nil
  rcases pending.settled node active absent target member with settled | ⟨_, late⟩
  · exact settled
  · rw [ended.1] at late
    exact absurd late List.not_mem_nil

end Pending

variable [DecidableEq ι]

def enqueue (changed : Bool) (target : ι) (queue : List ι) : List ι :=
  if changed && !queue.contains target then queue ++ [target] else queue

inductive Moves (follow : Follow σ) (successors : ι → List ι) : Visit ι σ → Visit ι σ → Prop
  | follow {data : ι → σ} {queue : List ι} {node target : ι} {rest : List ι} {changed : Bool}
      {datum : σ} (followed : follow (data node) (data target) = some (changed, datum)) :
      Moves follow successors ⟨data, queue, node, target :: rest⟩
        ⟨Function.update data target datum, enqueue changed target queue, node, rest⟩
  | take {data : ι → σ} {queue : List ι} {node next : ι} {targets : List ι}
      (queued : next ∈ queue) (order : targets.Perm (successors next)) :
      Moves follow successors ⟨data, queue, node, []⟩ ⟨data, queue.erase next, next, targets⟩

/-- The visits that can be reached from that of `start`. -/
def Reached (follow : Follow σ) (successors : ι → List ι) (start : ι) (data : ι → σ)
    (visit : Visit ι σ) : Prop :=
  ∃ targets : List ι, targets.Perm (successors start) ∧
    Relation.ReflTransGen (Moves follow successors) ⟨data, [], start, targets⟩ visit

/-- Whatever is chosen, the moves from the visit of `start` come to an end, none is
undefined, and what they leave meets the condition. -/
structure Achieves (follow : Follow σ) (successors : ι → List ι) (start : ι) (data : ι → σ)
    (post : (ι → σ) → Prop) : Prop where
  terminates : ∀ visit, Reached follow successors start data visit →
    Acc (fun after before => Moves follow successors before after) visit
  proceeds : ∀ visit, Reached follow successors start data visit → ¬visit.Over →
    ∃ after, Moves follow successors visit after
  ends : ∀ visit, Reached follow successors start data visit → visit.Over → post visit.data

/-- What a move carries over from its visit to the next, all visits have that can be
reached. -/
theorem Reached.carries {follow : Follow σ} {successors : ι → List ι} {start : ι} {data : ι → σ}
    {visit : Visit ι σ} {kept : Visit ι σ → Prop}
    (reached : Reached follow successors start data visit)
    (first : ∀ targets : List ι, targets.Perm (successors start) →
      kept ⟨data, [], start, targets⟩)
    (step : ∀ {before after : Visit ι σ}, Moves follow successors before after →
      kept before → kept after) : kept visit := by
  obtain ⟨targets, order, moves⟩ := reached
  induction moves with
  | refl => exact first targets order
  | tail _ move induction => exact step move induction

theorem mem_enqueue {changed : Bool} {target other : ι} {queue : List ι} :
    other ∈ enqueue changed target queue ↔ other ∈ queue ∨ (changed = true ∧ other = target) := by
  unfold enqueue
  by_cases present : target ∈ queue
  · have stays : other = target → other ∈ queue := fun same => same ▸ present
    simpa [present] using fun _ => stays
  · cases changed <;> simp [present]

theorem enqueue_nodup {changed : Bool} {target : ι} {queue : List ι} (nodup : queue.Nodup) :
    (enqueue changed target queue).Nodup := by
  unfold enqueue
  split
  · next fresh =>
      simp only [Bool.and_eq_true, Bool.not_eq_true', List.contains_eq_mem,
        decide_eq_false_iff_not] at fresh
      exact nodup.append (List.nodup_singleton _) (List.disjoint_singleton.mpr fresh.2)
  · exact nodup

section Steps

variable {transfer : Transfer σ} {seen : σ → Bool} {rank : σ → Nat}
variable {successors : ι → List ι} {start : ι} {visit after : Visit ι σ}

theorem Lawful.seen_after (lawful : Lawful transfer seen rank) (a b : σ) :
    seen (transfer a b).2 = true :=
  lawful.sees (lawful.settles a b)

theorem active_update (lawful : Lawful transfer seen rank) {data : ι → σ} {node : ι}
    (active : Active seen start data node) (a : σ) (target : ι) :
    Active seen start (Function.update data target (transfer a (data target)).2) node := by
  refine active.imp_right fun marked => ?_
  by_cases same : node = target
  · subst same
    rw [Function.update_self]
    exact lawful.seen_after _ _
  · rw [Function.update_of_ne same]
    exact marked

theorem Pending.follow (lawful : Lawful transfer seen rank) {data : ι → σ} {queue rest : List ι}
    {node target : ι}
    (pending : Pending transfer seen successors start ⟨data, queue, node, target :: rest⟩) :
    Pending transfer seen successors start
      ⟨Function.update data target (transfer (data node) (data target)).2,
        enqueue (transfer (data node) (data target)).1 target queue, node, rest⟩ where
  nodup := enqueue_nodup pending.nodup
  queued other member := by
    rcases mem_enqueue.mp member with before | ⟨_, rfl⟩
    · exact active_update lawful (pending.queued other before) _ _
    · refine Or.inr ?_
      dsimp only
      rw [Function.update_self]
      exact lawful.seen_after _ _
  current := active_update lawful pending.current _ _
  within other member := pending.within other (List.mem_cons_of_mem _ member)
  settled other active unqueued aim member := by
    cases changes : (transfer (data node) (data target)).1 with
    | false =>
        have same : Function.update data target (transfer (data node) (data target)).2 = data := by
          rw [lawful.unchanged changes, Function.update_eq_self]
        simp only [same] at active ⊢
        have absent : other ∉ queue := fun present => unqueued (mem_enqueue.mpr (Or.inl present))
        rcases pending.settled other active absent aim member with settled | ⟨rfl, late⟩
        · exact Or.inl settled
        · rcases List.mem_cons.mp late with rfl | later
          · exact Or.inl changes
          · exact Or.inr ⟨rfl, later⟩
    | true =>
        have absent : other ∉ queue := fun present => unqueued (mem_enqueue.mpr (Or.inl present))
        have apart : other ≠ target := fun same =>
          unqueued (mem_enqueue.mpr (Or.inr ⟨changes, same⟩))
        have before : Active seen start data other :=
          active.imp_right fun marked => by simpa [Function.update_of_ne apart] using marked
        rcases pending.settled other before absent aim member with settled | ⟨rfl, late⟩
        · exact Or.inl (settled_update lawful apart _ settled)
        · rcases List.mem_cons.mp late with rfl | later
          · refine Or.inl ?_
            simp only [Settled, Function.update_of_ne apart, Function.update_self]
            exact lawful.settles _ _
          · exact Or.inr ⟨rfl, later⟩

theorem Pending.take {data : ι → σ} {queue : List ι} {node next : ι} {targets : List ι}
    (pending : Pending transfer seen successors start ⟨data, queue, node, []⟩)
    (queued : next ∈ queue) (order : targets.Perm (successors next)) :
    Pending transfer seen successors start ⟨data, queue.erase next, next, targets⟩ where
  nodup := pending.nodup.erase next
  queued other member := pending.queued other (List.mem_of_mem_erase member)
  current := pending.queued next queued
  within _ member := order.subset member
  settled other active unqueued aim member := by
    by_cases same : other = next
    · subst same
      exact Or.inr ⟨rfl, order.symm.subset member⟩
    · have absent : other ∉ queue := fun present =>
        unqueued ((List.mem_erase_of_ne same).mpr present)
      rcases pending.settled other active absent aim member with settled | ⟨_, late⟩
      · exact Or.inl settled
      · exact absurd late List.not_mem_nil

theorem Pending.step (lawful : Lawful transfer seen rank)
    (move : Moves transfer.total successors visit after)
    (pending : Pending transfer seen successors start visit) :
    Pending transfer seen successors start after := by
  cases move with
  | follow followed =>
      obtain ⟨rfl, rfl⟩ := Prod.mk.inj (Option.some.inj followed).symm
      exact pending.follow lawful
  | take queued order => exact pending.take queued order

theorem Pending.keeps {kept : (ι → σ) → Prop}
    (step : ∀ {data : ι → σ} {node target : ι}, Active seen start data node →
      target ∈ successors node → kept data →
      kept (Function.update data target (transfer (data node) (data target)).2))
    (pending : Pending transfer seen successors start visit)
    (move : Moves transfer.total successors visit after) (before : kept visit.data) :
    kept after.data := by
  cases move with
  | follow followed =>
      obtain ⟨rfl, rfl⟩ := Prod.mk.inj (Option.some.inj followed).symm
      exact step pending.current (pending.within _ List.mem_cons_self) before
  | take _ _ => exact before

/-- A move takes from the potential, or leaves it and takes an edge from the visit. -/
theorem Pending.lowers (lawful : Lawful transfer seen rank) {nodes : Finset ι}
    (closed : ∀ node, ∀ target ∈ successors node, target ∈ nodes)
    (pending : Pending transfer seen successors start visit)
    (move : Moves transfer.total successors visit after) :
    Prod.Lex (· < ·) (· < ·)
      (potential rank nodes (after.data, after.queue), after.rest.length)
      (potential rank nodes (visit.data, visit.queue), visit.rest.length) := by
  cases move with
  | @follow data queue node target rest changed datum followed =>
      obtain ⟨rfl, rfl⟩ := Prod.mk.inj (Option.some.inj followed).symm
      have inside : target ∈ nodes := closed _ _ (pending.within target List.mem_cons_self)
      have most := along_potential lawful node inside (data, queue)
      rcases Nat.lt_or_eq_of_le most with less | same
      · exact Prod.Lex.left _ _ less
      · refine Prod.lex_def.mpr (Or.inr ⟨same, ?_⟩)
        exact Nat.lt_succ_self _
  | take queued _ =>
      refine Prod.Lex.left _ _ ?_
      have shorter := List.length_erase_of_mem queued
      have some_ := List.length_pos_of_mem queued
      simp only [potential]
      omega

theorem Pending.acc (lawful : Lawful transfer seen rank) {nodes : Finset ι}
    (closed : ∀ node, ∀ target ∈ successors node, target ∈ nodes)
    (pending : Pending transfer seen successors start visit) :
    Acc (fun after before => Moves transfer.total successors before after) visit := by
  have founded : WellFounded (Prod.Lex (fun less more : Nat => less < more)
      (fun less more : Nat => less < more)) :=
    WellFounded.prod_lex Nat.lt_wfRel.wf Nat.lt_wfRel.wf
  generalize measure : (potential rank nodes (visit.data, visit.queue), visit.rest.length) = left
  induction left using founded.induction generalizing visit with
  | _ left induction =>
      refine Acc.intro visit fun after move => ?_
      refine induction _ ?_ (pending.step lawful move) rfl
      rw [← measure]
      exact pending.lowers lawful closed move

end Steps

/-- A partial transfer that does under a view what a total one does, as long as its source
is `ready` and its target `fit`; then the target is ready. -/
structure Viewed (follow : Follow τ) (transfer : Transfer σ) (view : τ → σ)
    (successors : ι → List ι) (ready fit : ι → τ → Prop) : Prop where
  weaken : ∀ {node a}, ready node a → fit node a
  follows : ∀ {node target a b}, target ∈ successors node → ready node a → fit target b →
    ∃ c, follow a b = some ((transfer (view a) (view b)).1, c) ∧
      view c = (transfer (view a) (view b)).2 ∧ ready target c

structure Fits (successors : ι → List ι) (ready fit : ι → τ → Prop) (visit : Visit ι τ) :
    Prop where
  every : ∀ node, fit node (visit.data node)
  current : ready visit.node (visit.data visit.node)
  queued : ∀ node ∈ visit.queue, ready node (visit.data node)
  within : ∀ target ∈ visit.rest, target ∈ successors visit.node

section Viewed

variable {follow : Follow τ} {transfer : Transfer σ} {view : τ → σ} {successors : ι → List ι}
variable {ready fit : ι → τ → Prop} {visit after : Visit ι τ}
variable {seen : σ → Bool} {rank : σ → Nat} {start : ι} {data : ι → τ}

theorem Viewed.defined (viewed : Viewed follow transfer view successors ready fit)
    (fits : Fits successors ready fit visit) (ended : ¬visit.Over) :
    ∃ after, Moves follow successors visit after := by
  rcases visit with ⟨data, queue, node, rest⟩
  cases rest with
  | nil =>
      cases queue with
      | nil => exact absurd ⟨rfl, rfl⟩ ended
      | cons next queue => exact ⟨_, Moves.take List.mem_cons_self (List.Perm.refl _)⟩
  | cons target rest =>
      obtain ⟨datum, followed, _⟩ := viewed.follows (fits.within target List.mem_cons_self)
        fits.current (fits.every target)
      exact ⟨_, Moves.follow followed⟩

theorem Viewed.fits (viewed : Viewed follow transfer view successors ready fit)
    (fits : Fits successors ready fit visit) (move : Moves follow successors visit after) :
    Fits successors ready fit after := by
  cases move with
  | @follow data queue node target rest changed datum followed =>
      obtain ⟨c, same, _, prepared⟩ := viewed.follows (fits.within target List.mem_cons_self)
        fits.current (fits.every target)
      obtain ⟨rfl, rfl⟩ := Prod.mk.inj (Option.some.inj (followed.symm.trans same))
      have kept : ∀ other, ready other (data other) →
          ready other (Function.update data target datum other) := by
        intro other before
        by_cases equal : other = target
        · subst equal
          rw [Function.update_self]
          exact prepared
        · rw [Function.update_of_ne equal]
          exact before
      refine ⟨fun other => ?_, kept node fits.current, fun other member => ?_, fun other member =>
        fits.within other (List.mem_cons_of_mem _ member)⟩
      · by_cases equal : other = target
        · subst equal
          dsimp only
          rw [Function.update_self]
          exact viewed.weaken prepared
        · dsimp only
          rw [Function.update_of_ne equal]
          exact fits.every other
      · rcases mem_enqueue.mp member with before | ⟨_, rfl⟩
        · exact kept other (fits.queued other before)
        · dsimp only
          rw [Function.update_self]
          exact prepared
  | @take data queue node next targets queued order =>
      exact ⟨fits.every, fits.queued next queued,
        fun other member => fits.queued other (List.mem_of_mem_erase member),
        fun other member => order.subset member⟩

theorem Viewed.moves (viewed : Viewed follow transfer view successors ready fit)
    (fits : Fits successors ready fit visit) (move : Moves follow successors visit after) :
    Moves transfer.total successors (visit.map view) (after.map view) := by
  cases move with
  | @follow data queue node target rest changed datum followed =>
      obtain ⟨c, same, seen, _⟩ := viewed.follows (fits.within target List.mem_cons_self)
        fits.current (fits.every target)
      obtain ⟨rfl, rfl⟩ := Prod.mk.inj (Option.some.inj (followed.symm.trans same))
      have updated : (fun other => view (Function.update data target datum other)) =
          Function.update (fun other => view (data other)) target (view datum) :=
        Function.comp_update view data target datum
      simp only [Visit.map, updated]
      refine Moves.follow ?_
      rw [Transfer.total, seen]
  | @take data queue node next targets queued order =>
      exact Moves.take queued order

theorem Viewed.acc (viewed : Viewed follow transfer view successors ready fit)
    (fits : Fits successors ready fit visit)
    (acc : Acc (fun after before => Moves transfer.total successors before after)
      (visit.map view)) :
    Acc (fun after before => Moves follow successors before after) visit := by
  generalize shape : visit.map view = image at acc
  induction acc generalizing visit with
  | intro image _ induction =>
      refine Acc.intro visit fun after move => ?_
      subst shape
      exact induction (after.map view) (viewed.moves fits move) (viewed.fits fits move) rfl

variable (viewed : Viewed follow transfer view successors ready fit)
variable (lawful : Lawful transfer seen rank)
variable (fresh : ∀ node, seen (view (data node)) = true → node = start)
variable (every : ∀ node, fit node (data node)) (prepared : ready start (data start))

include viewed lawful fresh every prepared

/-- What holds of every visit that can be reached, with what following an edge of an
active node keeps of the viewed data. -/
theorem Viewed.reached {kept : (ι → σ) → Prop}
    (step : ∀ {data : ι → σ} {node target : ι}, Active seen start data node →
      target ∈ successors node → kept data →
      kept (Function.update data target (transfer (data node) (data target)).2))
    (first : kept fun node => view (data node))
    (reached : Reached follow successors start data visit) :
    Fits successors ready fit visit ∧
      Pending transfer seen successors start (visit.map view) ∧ kept (visit.map view).data := by
  let holds (visit : Visit ι τ) : Prop := Fits successors ready fit visit ∧
    Pending transfer seen successors start (visit.map view) ∧ kept (visit.map view).data
  show holds visit
  refine reached.carries (fun targets order => ?_) ?_
  · exact ⟨⟨every, prepared, fun _ member => absurd member List.not_mem_nil,
      fun _ member => order.subset member⟩, Pending.first fresh order, first⟩
  · rintro before after move ⟨fits, pending, now⟩
    have moves := viewed.moves fits move
    exact ⟨viewed.fits fits move, pending.step lawful moves, pending.keeps step moves now⟩

theorem Viewed.achieves {kept : (ι → σ) → Prop} {post : (ι → τ) → Prop} {nodes : Finset ι}
    (closed : ∀ node, ∀ target ∈ successors node, target ∈ nodes)
    (step : ∀ {data : ι → σ} {node target : ι}, Active seen start data node →
      target ∈ successors node → kept data →
      kept (Function.update data target (transfer (data node) (data target)).2))
    (first : kept fun node => view (data node))
    (ends : ∀ data : ι → τ, (∀ node, fit node (data node)) → kept (fun node => view (data node)) →
      (∀ node, Active seen start (fun node => view (data node)) node →
        ∀ target ∈ successors node, Settled transfer (fun node => view (data node)) node target) →
      post data) :
    Achieves follow successors start data post where
  terminates visit reached := by
    obtain ⟨fits, pending, _⟩ := viewed.reached lawful fresh every prepared step first reached
    exact viewed.acc fits (pending.acc lawful closed)
  proceeds visit reached ended := by
    obtain ⟨fits, _⟩ := viewed.reached lawful fresh every prepared step first reached
    exact viewed.defined fits ended
  ends visit reached ended := by
    obtain ⟨fits, pending, now⟩ :=
      viewed.reached lawful fresh every prepared step first reached
    exact ends visit.data fits.every now fun node active target member =>
      pending.finished ended active member

end Viewed

end Xemmai.Worklist
