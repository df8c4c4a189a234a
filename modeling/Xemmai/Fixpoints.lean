import Mathlib.Data.List.GetD
import Xemmai.Dataflow

/-!
# The least solutions

What the worklists of the flow analysis compute: the mentions on the paths from
the entry, and the uses on the paths to the end that no definition precedes.
-/

namespace Xemmai.Dataflow

set_option autoImplicit false

section Lists

variable {size i : Nat} {privates : List Private}

theorem resize_length (size : Nat) (privates : List Private) :
    (resize size privates).length = size := by
  simp only [resize, List.length_append, List.length_take, List.length_replicate]
  omega

theorem resize_getD (short : privates.length ≤ size) (i : Nat) :
    (resize size privates).getD i Private.empty = privates.getD i Private.empty := by
  rw [resize, List.take_of_length_le short]
  by_cases inside : i < privates.length
  · rw [List.getD_append _ _ _ _ inside]
  · rw [List.getD_append_right _ _ _ _ (not_lt.mp inside),
      List.getD_eq_default privates _ (not_lt.mp inside), List.getD_eq_getElem?_getD,
      List.getElem?_replicate]
    split <;> rfl

theorem set_getD (inside : i < privates.length) (written : Private) (j : Nat) :
    (privates.set i written).getD j Private.empty =
      if j = i then written else privates.getD j Private.empty := by
  rw [List.getD_eq_getElem?_getD, List.getElem?_set]
  by_cases same : j = i
  · subst same
    simp [inside]
  · rw [if_neg (Ne.symm same), if_neg same, List.getD_eq_getElem?_getD]

variable (sends takes : Private → Bool) (mark : Private → Private)

/-- The sweep over privates of the same number, behind those that have been swept. -/
theorem sweep_append (source : List Private) :
    ∀ (done : List Private) (b : Bool) (privates : List Private),
      privates.length = source.length →
      sweep sends takes mark done.length source (b, done ++ privates) =
        some (b || (List.range source.length).any fun i =>
            sends (source.getD i Private.empty) && takes (privates.getD i Private.empty),
          done ++ List.zipWith (fun x y => if sends x && takes y then mark y else y)
            source privates) := by
  induction source with
  | nil =>
      intro done b privates same
      have nothing : privates = [] := List.eq_nil_of_length_eq_zero same
      subst nothing
      simp [sweep]
  | cons x source induction =>
      intro done b privates same
      cases privates with
      | nil => cases same
      | cons y privates =>
          have shorter : privates.length = source.length := Nat.succ.inj same
          have step (b : Bool) (y : Private) :
              sweep sends takes mark (done.length + 1) source (b, done ++ y :: privates) =
                some (b || (List.range source.length).any fun i =>
                    sends (source.getD i Private.empty) && takes (privates.getD i Private.empty),
                  done ++ y :: List.zipWith (fun x y => if sends x && takes y then mark y else y)
                    source privates) := by
            have next := induction (done ++ [y]) b privates shorter
            rw [List.length_append, List.length_singleton, List.append_assoc,
              List.append_assoc] at next
            exact next
          have here : (done ++ y :: privates)[done.length]? = some y := by simp
          have written : (done ++ y :: privates).set done.length (mark y) =
              done ++ mark y :: privates := by simp
          rw [sweep, List.length_cons, List.range_succ_eq_map, List.any_cons, List.any_map,
            List.zipWith_cons_cons]
          cases sent : sends x with
          | false =>
              rw [if_neg Bool.false_ne_true, step]
              simp [sent, Function.comp_def]
          | true =>
              rw [if_pos rfl, here]
              cases taken : takes y with
              | false =>
                  simp only [step]
                  simp [sent, taken, Function.comp_def]
              | true =>
                  simp only [written, step]
                  simp [sent, taken, Function.comp_def]

theorem sweep_eq {source privates : List Private} (same : privates.length = source.length)
    (b : Bool) :
    sweep sends takes mark 0 source (b, privates) =
      some (b || (List.range source.length).any fun i =>
          sends (source.getD i Private.empty) && takes (privates.getD i Private.empty),
        List.zipWith (fun x y => if sends x && takes y then mark y else y) source privates) := by
  simpa using sweep_append sends takes mark source [] b privates same

theorem zipWith_getD {source privates : List Private} (same : privates.length = source.length)
    (nothing : sends Private.empty = false) (i : Nat) :
    (List.zipWith (fun x y => if sends x && takes y then mark y else y) source privates).getD i
        Private.empty =
      if sends (source.getD i Private.empty) && takes (privates.getD i Private.empty) then
        mark (privates.getD i Private.empty)
      else privates.getD i Private.empty := by
  simp only [List.getD_eq_getElem?_getD, List.getElem?_zipWith]
  by_cases inside : i < source.length
  · have also : i < privates.length := same ▸ inside
    simp [List.getElem?_eq_getElem inside, List.getElem?_eq_getElem also]
  · have outside : source.length ≤ i := not_lt.mp inside
    have also : privates.length ≤ i := same ▸ outside
    simp [List.getElem?_eq_none outside, List.getElem?_eq_none also, nothing]

end Lists

/-- The privates of a block as the propagations see them. -/
def Facts.view (facts : Facts) : Block where
  forward := facts.forward
  backward := facts.backward
  in_ i := (facts.privates.getD i Private.empty).in_
  out i := (facts.privates.getD i Private.empty).out
  define i := (facts.privates.getD i Private.empty).define
  use i := (facts.privates.getD i Private.empty).use

namespace Facts

variable {source facts : Facts} {size : Nat}

theorem sent_lt {field : Private → Bool} (nothing : field Private.empty = false)
    {privates : List Private} {i : Nat}
    (sent : field (privates.getD i Private.empty) = true) : i < privates.length := by
  by_contra outside
  rw [List.getD_eq_default _ _ (not_lt.mp outside), nothing] at sent
  cases sent

theorem forward_view (long : source.privates.length = size)
    (short : facts.privates.length ≤ size)
    (full : facts.forward = true → facts.privates.length = size) :
    ∃ after, Dataflow.forward source facts =
        some ((Block.propagateForward (List.range size) source.view facts.view).1, after) ∧
      after.view = (Block.propagateForward (List.range size) source.view facts.view).2 ∧
      after.forward = true ∧ after.privates.length = size := by
  -- the block with its vector grown
  obtain ⟨grown, is, long', seen⟩ : ∃ grown : List Private,
      (if !facts.forward then
        { facts with forward := true, privates := resize source.privates.length facts.privates }
        else facts) = { facts with forward := true, privates := grown } ∧
      grown.length = size ∧
      ∀ i, grown.getD i Private.empty = facts.privates.getD i Private.empty := by
    rcases facts with ⟨visited, returned, privates⟩
    cases visited with
    | false => exact ⟨_, rfl, (resize_length _ _).trans long, resize_getD (by omega)⟩
    | true => exact ⟨privates, rfl, full rfl, fun _ => rfl⟩
  have same : grown.length = source.privates.length := long'.trans long.symm
  have arrives (i : Nat) :
      ((List.range size).contains i && source.view.out i && !facts.view.in_ i) =
        ((source.privates.getD i Private.empty).out &&
          !(grown.getD i Private.empty).in_) := by
    rw [seen]
    cases sent : (source.privates.getD i Private.empty).out with
    | false =>
        have absent : source.view.out i = false := sent
        rw [absent, Bool.and_false, Bool.false_and, Bool.false_and]
    | true =>
        have present : source.view.out i = true := sent
        have inside : i < size := long ▸ sent_lt rfl sent
        rw [present, List.contains_iff_mem.mpr (List.mem_range.mpr inside), Bool.true_and]
        rfl
  let marked := List.zipWith (fun x y : Private =>
    if x.out && !y.in_ then { y with in_ := true, out := true } else y) source.privates grown
  have at_ (i : Nat) : marked.getD i Private.empty =
      if (source.privates.getD i Private.empty).out && !(grown.getD i Private.empty).in_ then
        { grown.getD i Private.empty with in_ := true, out := true }
      else grown.getD i Private.empty :=
    zipWith_getD (·.out) (!·.in_) (fun x : Private => { x with in_ := true, out := true })
      same rfl i
  refine ⟨{ facts with forward := true, privates := marked }, ?_, ?_, rfl, ?_⟩
  · simp only [Dataflow.forward, fForward, is, sweep_eq _ _ _ same, Option.map_some]
    simp only [Block.propagateForward, arrives, long]
    rfl
  · simp only [Block.propagateForward, arrives]
    simp only [view, at_, seen, Block.mk.injEq, true_and]
    refine ⟨?_, ?_, ?_, ?_⟩ <;> funext i <;> split <;> simp_all
  · simp only [marked, List.length_zipWith, same, Nat.min_self, long]

theorem backward_view (long : source.privates.length = size)
    (full : facts.privates.length = size) :
    ∃ after, Dataflow.backward source facts =
        some ((Block.propagateBackward (List.range size) source.view facts.view).1, after) ∧
      after.view = (Block.propagateBackward (List.range size) source.view facts.view).2 ∧
      after.privates.length = size := by
  have same : facts.privates.length = source.privates.length := full.trans long.symm
  have arrives (i : Nat) :
      ((List.range size).contains i && source.view.use i && !facts.view.define i &&
          !facts.view.use i) =
        ((source.privates.getD i Private.empty).use &&
          (!(facts.privates.getD i Private.empty).define &&
            !(facts.privates.getD i Private.empty).use)) := by
    cases sent : (source.privates.getD i Private.empty).use with
    | false =>
        have absent : source.view.use i = false := sent
        rw [absent, Bool.and_false, Bool.false_and, Bool.false_and, Bool.false_and]
    | true =>
        have present : source.view.use i = true := sent
        have inside : i < size := long ▸ sent_lt rfl sent
        rw [present, List.contains_iff_mem.mpr (List.mem_range.mpr inside), Bool.true_and,
          Bool.true_and, Bool.true_and]
        rfl
  let marked := List.zipWith (fun x y : Private =>
    if x.use && (!y.define && !y.use) then { y with use := true } else y)
      source.privates facts.privates
  have at_ (i : Nat) : marked.getD i Private.empty =
      if (source.privates.getD i Private.empty).use &&
          (!(facts.privates.getD i Private.empty).define &&
            !(facts.privates.getD i Private.empty).use) then
        { facts.privates.getD i Private.empty with use := true }
      else facts.privates.getD i Private.empty :=
    zipWith_getD (·.use) (fun x => !x.define && !x.use)
      (fun x : Private => { x with use := true }) same rfl i
  refine ⟨{ facts with backward := true, privates := marked }, ?_, ?_, ?_⟩
  · simp only [Dataflow.backward, fBackward, sweep_eq _ _ _ same, Option.map_some,
      Block.propagateBackward, arrives, long]
    rfl
  · simp only [Block.propagateBackward, arrives]
    simp only [view, at_, Block.mk.injEq, true_and]
    refine ⟨?_, ?_, ?_, ?_⟩ <;> funext i <;> split <;> simp_all
  · simp only [marked, List.length_zipWith, same, Nat.min_self, long]

theorem fUse_view (i : Nat) (put : Bool) (facts : Facts) :
    (facts.fUse i put).view = facts.view.access i put := by
  obtain ⟨privates, is, inside, seen⟩ : ∃ privates : List Private,
      (if facts.privates.length < i + 1 then resize (i + 1) facts.privates
        else facts.privates) = privates ∧ i < privates.length ∧
      ∀ j, privates.getD j Private.empty = facts.privates.getD j Private.empty := by
    refine ⟨_, rfl, ?_, ?_⟩
    · split
      · rw [resize_length]
        omega
      · omega
    · split
      · exact resize_getD (by omega)
      · exact fun _ => rfl
  simp only [fUse, is, Block.access]
  cases out : (privates.getD i Private.empty).out with
  | true =>
      have before : facts.view.out i = true := by
        rw [← out, seen]
        rfl
      rw [if_pos rfl, if_pos before]
      simp only [view, seen]
  | false =>
      have before : facts.view.out i = false := by
        rw [← out, seen]
        rfl
      rw [if_neg Bool.false_ne_true, before, if_neg Bool.false_ne_true]
      simp only [view, set_getD inside, seen, Block.mk.injEq, true_and]
      refine ⟨?_, ?_, ?_, ?_⟩ <;> funext j <;> by_cases same : j = i <;>
        simp [same, Function.update_of_ne]

theorem fUse_length {i size : Nat} (put : Bool) {facts : Facts} (inside : i < size)
    (short : facts.privates.length ≤ size) : (facts.fUse i put).privates.length ≤ size := by
  obtain ⟨privates, is, grown⟩ : ∃ privates : List Private,
      (if facts.privates.length < i + 1 then resize (i + 1) facts.privates
        else facts.privates) = privates ∧ privates.length ≤ size := by
    refine ⟨_, rfl, ?_⟩
    split
    · rw [resize_length]
      omega
    · exact short
  simp only [fUse, is]
  split
  · exact grown
  · rw [List.length_set]
    exact grown

end Facts

section Mentions

variable {i : Nat} {put : Bool} {mention : Nat × Bool} {mentions more : List (Nat × Bool)}

theorem exposed_cons : Exposed i (mention :: mentions) ↔
    mention = (i, false) ∨ (mention ≠ (i, true) ∧ Exposed i mentions) := by
  constructor
  · rintro ⟨before, after, split, none⟩
    cases before with
    | nil => exact Or.inl (List.cons.inj split).1
    | cons first before =>
        obtain ⟨rfl, rest⟩ := List.cons.inj split
        rw [List.mem_cons, not_or] at none
        exact Or.inr ⟨fun same => none.1 same.symm, before, after, rest, none.2⟩
  · rintro (rfl | ⟨other, before, after, rfl, none⟩)
    · exact ⟨[], mentions, rfl, List.not_mem_nil⟩
    · refine ⟨mention :: before, after, rfl, ?_⟩
      rw [List.mem_cons, not_or]
      exact ⟨fun same => other same.symm, none⟩

theorem not_exposed_nil : ¬Exposed i [] := by
  rintro ⟨before, after, split, _⟩
  cases before <;> cases split

theorem exposed_append : Exposed i (mentions ++ more) ↔
    Exposed i mentions ∨ ((i, true) ∉ mentions ∧ Exposed i more) := by
  induction mentions with
  | nil => simp [not_exposed_nil]
  | cons mention mentions induction =>
      rw [List.cons_append, exposed_cons, exposed_cons, induction, List.mem_cons, not_or]
      by_cases same : mention = (i, true)
      · subst same
        simp
      · have apart : (i, true) ≠ mention := fun equal => same equal.symm
        simp only [ne_eq, same, apart, not_false_eq_true, true_and, or_assoc]

theorem mentioned_append : (∃ put, (i, put) ∈ mentions ++ more) ↔
    (∃ put, (i, put) ∈ mentions) ∨ ∃ put, (i, put) ∈ more := by
  simp only [List.mem_append, exists_or]

theorem Exposed.mentioned (exposed : Exposed i mentions) : ∃ put, (i, put) ∈ mentions := by
  obtain ⟨before, after, rfl, _⟩ := exposed
  exact ⟨false, List.mem_append_right _ List.mem_cons_self⟩

/-- A block after the mentions. -/
structure Mentioned (mentions : List (Nat × Bool)) (block : Block) : Prop where
  out : ∀ i, block.out i = true ↔ ∃ put, (i, put) ∈ mentions
  use : ∀ i, block.use i = true ↔ Exposed i mentions
  define : ∀ i, block.define i = true → (i, true) ∈ mentions
  either : ∀ i, block.out i = true → block.define i = true ∨ block.use i = true
  in_ : ∀ i, block.in_ i = false
  forward : block.forward = false
  backward : block.backward = false

theorem Mentioned.nil : Mentioned [] Block.empty where
  out i := by simp [Block.empty]
  use i := by simp [Block.empty, not_exposed_nil]
  define i := by simp [Block.empty]
  either i := by simp [Block.empty]
  in_ _ := rfl
  forward := rfl
  backward := rfl

theorem Mentioned.access {block : Block} (mentioned : Mentioned mentions block) (i : Nat)
    (put : Bool) : Mentioned (mentions ++ [(i, put)]) (block.access i put) := by
  have single (j : Nat) : Exposed j [(i, put)] ↔ j = i ∧ put = false := by
    rw [exposed_cons]
    simp only [not_exposed_nil, and_false, or_false, Prod.mk.injEq]
    exact and_congr_left' eq_comm
  unfold Block.access
  cases known : block.out i with
  | true =>
      obtain ⟨put', member⟩ := (mentioned.out i).mp known
      refine ⟨fun j => ?_, fun j => ?_, fun j defined => ?_, mentioned.either, mentioned.in_,
        mentioned.forward, mentioned.backward⟩
      · rw [if_pos rfl, mentioned.out, mentioned_append, iff_self_or]
        rintro ⟨other, last⟩
        obtain ⟨rfl, rfl⟩ := Prod.mk.inj (List.mem_singleton.mp last)
        exact ⟨put', member⟩
      · rw [if_pos rfl, mentioned.use, exposed_append, iff_self_or]
        rintro ⟨none, last⟩
        obtain ⟨rfl, _⟩ := (single j).mp last
        rcases mentioned.either j known with defined | used
        · exact absurd (mentioned.define j defined) none
        · exact (mentioned.use j).mp used
      · exact List.mem_append_left _ (mentioned.define j defined)
  | false =>
      have fresh : ¬∃ put, (i, put) ∈ mentions := by
        rw [← mentioned.out, known]
        exact Bool.false_ne_true
      have unexposed : ¬Exposed i mentions := fun exposed => fresh exposed.mentioned
      rw [if_neg Bool.false_ne_true]
      refine ⟨fun j => ?_, fun j => ?_, fun j => ?_, fun j => ?_, mentioned.in_,
        mentioned.forward, mentioned.backward⟩
      all_goals by_cases same : j = i
      · subst same
        simp
      · simp [mentioned.out, same]
      · subst same
        rw [exposed_append, single]
        have none : (j, true) ∉ mentions := fun member => fresh ⟨true, member⟩
        simp [unexposed, none]
      · rw [exposed_append, single]
        simp [same, mentioned.use]
      · subst same
        intro defined
        have is : put = true := by simpa using defined
        exact List.mem_append_right _ (is ▸ List.mem_singleton_self _)
      · simpa [Function.update_of_ne same, same] using mentioned.define j
      · subst same
        cases put <;> simp
      · simpa [Function.update_of_ne same] using mentioned.either j

end Mentions

section Drawn

variable {ι : Type} [DecidableEq ι]

theorem fNext_spec (blocks : ι → TBlock ι) (source target block : ι) :
    (fNext blocks source target block).toFacts = (blocks block).toFacts ∧
      (fNext blocks source target block).queue = (blocks block).queue ∧
      (∀ other, other ∈ (fNext blocks source target block).nexts ↔
        other ∈ (blocks block).nexts ∨ (block, other) = (source, target)) ∧
      (∀ other, other ∈ (fNext blocks source target block).previouses ↔
        other ∈ (blocks block).previouses ∨ (other, block) = (source, target)) := by
  by_cases first : block = source
  · subst first
    by_cases second : block = target
    · subst second
      simp [fNext]
    · simp [fNext, second]
  · by_cases second : block = target
    · subst second
      simp [fNext, first]
    · simp [fNext, first, second]

theorem edges_spec (edges : List (ι × ι)) (blocks : ι → TBlock ι) (block : ι) :
    let drawn := edges.foldl (fun blocks edge => fNext blocks edge.1 edge.2) blocks
    (drawn block).toFacts = (blocks block).toFacts ∧
      (drawn block).queue = (blocks block).queue ∧
      (∀ other, other ∈ (drawn block).nexts ↔
        other ∈ (blocks block).nexts ∨ (block, other) ∈ edges) ∧
      (∀ other, other ∈ (drawn block).previouses ↔
        other ∈ (blocks block).previouses ∨ (other, block) ∈ edges) := by
  induction edges generalizing blocks with
  | nil => simp
  | cons edge edges induction =>
      have rest := induction (fNext blocks edge.1 edge.2)
      obtain ⟨facts, queue, nexts, previouses⟩ := fNext_spec blocks edge.1 edge.2 block
      refine ⟨rest.1.trans facts, rest.2.1.trans queue, fun other => ?_, fun other => ?_⟩
      · rw [List.foldl_cons, rest.2.2.1, nexts, List.mem_cons, or_assoc]
      · rw [List.foldl_cons, rest.2.2.2, previouses, List.mem_cons, or_assoc]

namespace Graph

variable (graph : Graph ι)

theorem mem_nexts {block other : ι} :
    other ∈ (graph.drawn block).nexts ↔ (block, other) ∈ graph.edges := by
  rw [drawn, (edges_spec graph.edges _ block).2.2.1]
  simp

theorem mem_previouses {block other : ι} :
    other ∈ (graph.drawn block).previouses ↔ (other, block) ∈ graph.edges := by
  rw [drawn, (edges_spec graph.edges _ block).2.2.2]
  simp

theorem drawn_queue (block : ι) : (graph.drawn block).queue = none := by
  rw [drawn, (edges_spec graph.edges _ block).2.1]

theorem drawn_facts (block : ι) : (graph.drawn block).toFacts =
    (graph.mentions block).foldl (fun facts mention => facts.fUse mention.1 mention.2)
      Facts.empty := by
  rw [drawn, (edges_spec graph.edges _ block).1]

theorem drawn_mentioned (block : ι) :
    Mentioned (graph.mentions block) (graph.drawn block).toFacts.view := by
  rw [drawn_facts]
  generalize graph.mentions block = mentions
  induction mentions using List.reverseRecOn with
  | nil =>
      have nothing : Facts.empty.view = Block.empty := by simp [Facts.view, Facts.empty,
        Block.empty, Private.empty]
      rw [List.foldl_nil, nothing]
      exact Mentioned.nil
  | append_singleton mentions mention induction =>
      rw [List.foldl_append, List.foldl_cons, List.foldl_nil, Facts.fUse_view]
      exact induction.access mention.1 mention.2

theorem drawn_short (block : ι) : (graph.drawn block).privates.length ≤ graph.size := by
  rw [drawn_facts]
  have bounded := graph.bounded block
  generalize graph.mentions block = mentions at bounded
  induction mentions using List.reverseRecOn with
  | nil => exact Nat.zero_le _
  | append_singleton mentions mention induction =>
      rw [List.foldl_append, List.foldl_cons, List.foldl_nil]
      refine Facts.fUse_length _ ?_ (induction fun other member => ?_)
      · exact bounded mention (List.mem_append_right _ (List.mem_singleton_self _))
      · exact bounded other (List.mem_append_left _ member)

end Graph

end Drawn

section Along

variable {ι : Type} (graph : Graph ι)

namespace Graph

theorem along_cons (block : ι) (passed : List ι) :
    graph.along (block :: passed) = graph.mentions block ++ graph.along passed :=
  List.flatMap_cons

theorem along_concat (passed : List ι) (block : ι) :
    graph.along (passed ++ [block]) = graph.along passed ++ graph.mentions block := by
  rw [along, List.flatMap_append, List.flatMap_singleton, along]

/-- A mention on a path from the entry up to the start of the block. -/
def MentionedBefore (block : ι) (i : Nat) : Prop :=
  ∃ passed, Path graph.edges graph.entry passed block ∧ ∃ put, (i, put) ∈ graph.along passed

/-- A mention on a path from the entry up to the end of the block. -/
def MentionedUpTo (block : ι) (i : Nat) : Prop :=
  ∃ passed, Path graph.edges graph.entry passed block ∧
    ∃ put, (i, put) ∈ graph.along (passed ++ [block])

/-- A use on a path from the block's start to the end that no definition precedes. -/
def UsedAfter (block : ι) (i : Nat) : Prop :=
  ∃ passed, Path graph.edges block passed graph.junction ∧
    Exposed i (graph.along (passed ++ [graph.junction]))

/-- The equations of the forward pass. -/
structure Forwards (sets : (ι → Nat → Prop) × (ι → Nat → Prop)) : Prop where
  edge : ∀ {block next : ι}, Reaches graph.edges graph.entry block →
    (block, next) ∈ graph.edges → ∀ i, sets.2 block i → sets.1 next i
  pass : ∀ {block : ι}, Reaches graph.edges graph.entry block → ∀ i, sets.1 block i →
    sets.2 block i
  mention : ∀ {block : ι}, Reaches graph.edges graph.entry block → ∀ i put,
    (i, put) ∈ graph.mentions block → sets.2 block i

/-- The equations of the backward pass. -/
structure Backwards (sets : ι → Nat → Prop) : Prop where
  edge : ∀ {block next : ι}, Reaches graph.edges next graph.junction →
    (block, next) ∈ graph.edges → ∀ i, (i, true) ∉ graph.mentions block → sets next i →
    sets block i
  mention : ∀ {block : ι}, Reaches graph.edges block graph.junction → ∀ i,
    Exposed i (graph.mentions block) → sets block i

variable {graph}

theorem used_itself {block : ι} (reaches : Reaches graph.edges block graph.junction) {i : Nat}
    (exposed : Exposed i (graph.mentions block)) : graph.UsedAfter block i := by
  obtain ⟨passed, path⟩ := reaches
  refine ⟨passed, path, ?_⟩
  cases path with
  | nil =>
      rw [List.nil_append, along_cons, exposed_append]
      exact Or.inl exposed
  | cons _ _ =>
      rw [List.cons_append, along_cons, exposed_append]
      exact Or.inl exposed

theorem mentioned_least :
    IsLeast {sets | graph.Forwards sets} (graph.MentionedBefore, graph.MentionedUpTo) := by
  constructor
  · refine ⟨fun _ edge i out => ?_, fun _ i before => ?_, fun reaches i put member => ?_⟩
    · obtain ⟨passed, path, mentioned⟩ := out
      exact ⟨_, path.snoc edge, mentioned⟩
    · obtain ⟨passed, path, put, member⟩ := before
      refine ⟨passed, path, put, ?_⟩
      rw [along_concat]
      exact List.mem_append_left _ member
    · obtain ⟨passed, path⟩ := reaches
      refine ⟨passed, path, put, ?_⟩
      rw [along_concat]
      exact List.mem_append_right _ member
  · rintro ⟨before, upTo⟩ solves
    have least {passed : List ι} {block : ι} (path : Path graph.edges graph.entry passed block)
        (i : Nat) (mentioned : ∃ put, (i, put) ∈ graph.along passed) : before block i := by
      let kept (passed : List ι) (block : ι) : Prop :=
        Reaches graph.edges graph.entry block ∧
          ((∃ put, (i, put) ∈ graph.along passed) → before block i)
      have nil : kept [] graph.entry := by
        refine ⟨Reaches.refl _ _, ?_⟩
        rintro ⟨put, member⟩
        exact absurd member List.not_mem_nil
      suffices all : kept passed block from all.2 mentioned
      refine Path.reverse nil ?_ path
      rintro passed last next _ edge ⟨reaches, earlier⟩
      refine ⟨reaches.snoc edge, ?_⟩
      rintro ⟨put, member⟩
      rw [along_concat] at member
      refine solves.edge reaches edge i ?_
      rcases List.mem_append.mp member with early | own
      · exact solves.pass reaches i (earlier ⟨put, early⟩)
      · exact solves.mention reaches i put own
    constructor
    · rintro block i ⟨passed, path, mentioned⟩
      exact least path i mentioned
    · rintro block i ⟨passed, path, put, member⟩
      have reaches : Reaches graph.edges graph.entry block := ⟨passed, path⟩
      rw [along_concat] at member
      rcases List.mem_append.mp member with early | own
      · exact solves.pass reaches i (least path i ⟨put, early⟩)
      · exact solves.mention reaches i put own

theorem used_least : IsLeast {sets | graph.Backwards sets} graph.UsedAfter := by
  constructor
  · refine ⟨fun _ edge i undefined after => ?_, fun reaches i exposed => ?_⟩
    · obtain ⟨passed, path, exposed⟩ := after
      refine ⟨_, Path.cons edge path, ?_⟩
      rw [List.cons_append, along_cons, exposed_append]
      exact Or.inr ⟨undefined, exposed⟩
    · exact used_itself reaches exposed
  · intro sets solves
    have least {block last : ι} {passed : List ι} (path : Path graph.edges block passed last)
        (ends : last = graph.junction) (i : Nat)
        (exposed : Exposed i (graph.along (passed ++ [last]))) : sets block i := by
      induction path with
      | nil block =>
          rw [List.nil_append, along_cons, exposed_append] at exposed
          rcases exposed with here | ⟨_, nothing⟩
          · exact solves.mention (ends ▸ Reaches.refl _ _) i here
          · exact absurd nothing not_exposed_nil
      | @cons block next last passed edge path induction =>
          have reaches : Reaches graph.edges next graph.junction := ends ▸ ⟨passed, path⟩
          rw [List.cons_append, along_cons, exposed_append] at exposed
          rcases exposed with here | ⟨undefined, later⟩
          · exact solves.mention (Reaches.cons edge reaches) i here
          · exact solves.edge reaches edge i undefined (induction ends later)
    rintro block i ⟨passed, path, exposed⟩
    exact least path rfl i exposed

end Graph

end Along

section Forward

variable {ι : Type} [DecidableEq ι] (graph : Graph ι)

namespace Graph

structure Forwarding (data : ι → Block) : Prop where
  kept : ∀ block, Block.Forwarded (graph.drawn block).toFacts.view (data block)
  sound : ∀ block i, (data block).in_ i = true → graph.MentionedBefore block i
  reached : ∀ block, (data block).forward = true → Reaches graph.edges graph.entry block
  entry : (data graph.entry).forward = true

variable {graph} {data : ι → Block}

theorem Forwarding.arrives (forwarding : graph.Forwarding data) {node target : ι}
    (reaches : Reaches graph.edges graph.entry node) (edge : (node, target) ∈ graph.edges)
    {i : Nat} (out : (data node).out i = true) : graph.MentionedBefore target i := by
  rcases (forwarding.kept node).arrived i out with own | in_
  · obtain ⟨passed, path⟩ := reaches
    refine ⟨passed ++ [node], path.snoc edge, ?_⟩
    rw [along_concat, mentioned_append]
    exact Or.inr (((graph.drawn_mentioned node).out i).mp own)
  · obtain ⟨passed, path, mentioned⟩ := forwarding.sound node i in_
    refine ⟨passed ++ [node], path.snoc edge, ?_⟩
    rw [along_concat, mentioned_append]
    exact Or.inl mentioned

theorem Forwarding.step (forwarding : graph.Forwarding data) {node target : ι}
    (active : Worklist.Active Block.forward graph.entry data node)
    (member : target ∈ (graph.drawn node).nexts) :
    graph.Forwarding (Function.update data target
      (Block.propagateForward (List.range graph.size) (data node) (data target)).2) := by
  have edge := graph.mem_nexts.mp member
  have reaches : Reaches graph.edges graph.entry node := by
    rcases active with rfl | visited
    · exact Reaches.refl _ _
    · exact forwarding.reached node visited
  refine ⟨?_, ?_, ?_, ?_⟩
  · apply (Function.forall_update_iff data fun block datum =>
      Block.Forwarded (graph.drawn block).toFacts.view datum).mpr
    exact ⟨(forwarding.kept target).trans (Block.forward_keeps _ _),
      fun block _ => forwarding.kept block⟩
  · apply (Function.forall_update_iff data fun block datum =>
      ∀ i, datum.in_ i = true → graph.MentionedBefore block i).mpr
    refine ⟨fun i in_ => ?_, fun block _ => forwarding.sound block⟩
    simp only [Block.propagateForward, Bool.or_eq_true, Bool.and_eq_true] at in_
    rcases in_ with before | ⟨⟨_, out⟩, _⟩
    · exact forwarding.sound target i before
    · exact forwarding.arrives reaches edge out
  · apply (Function.forall_update_iff data fun block datum =>
      datum.forward = true → Reaches graph.edges graph.entry block).mpr
    exact ⟨fun _ => reaches.snoc edge, fun block _ => forwarding.reached block⟩
  · by_cases same : graph.entry = target
    · rw [same, Function.update_self]
      rfl
    · rw [Function.update_of_ne same]
      exact forwarding.entry

theorem Forwarding.passes (forwarding : graph.Forwarding data) {block : ι} {i : Nat}
    (in_ : (data block).in_ i = true) : (data block).out i = true := by
  refine (forwarding.kept block).passes (fun slot before => ?_) i in_
  rw [(graph.drawn_mentioned block).in_ slot] at before
  cases before

/-- Once the edges are settled, the blocks on a path are visited and have what is mentioned
before them. -/
theorem Forwarding.complete (forwarding : graph.Forwarding data)
    (settled : ∀ node, Worklist.Active Block.forward graph.entry data node →
      ∀ target ∈ (graph.drawn node).nexts,
        Worklist.Settled (Block.propagateForward (List.range graph.size)) data node target)
    {passed : List ι} {block : ι} (path : Path graph.edges graph.entry passed block) :
    Worklist.Active Block.forward graph.entry data block ∧
      ∀ i, (∃ put, (i, put) ∈ graph.along passed) → (data block).in_ i = true := by
  let kept (passed : List ι) (block : ι) : Prop :=
    Worklist.Active Block.forward graph.entry data block ∧
      ∀ i, (∃ put, (i, put) ∈ graph.along passed) → (data block).in_ i = true
  have nil : kept [] graph.entry := by
    refine ⟨Or.inl rfl, ?_⟩
    rintro i ⟨put, member⟩
    exact absurd member List.not_mem_nil
  show kept passed block
  refine Path.reverse nil ?_ path
  rintro passed last next _ edge ⟨active, before⟩
  have still := settled last active next (graph.mem_nexts.mpr edge)
  simp only [Worklist.Settled, Block.propagateForward, Bool.or_eq_false_iff,
    Bool.not_eq_false', List.any_eq_false] at still
  refine ⟨Or.inr still.1, ?_⟩
  rintro i ⟨put, member⟩
  have out : (data last).out i = true := by
    rw [along_concat] at member
    rcases List.mem_append.mp member with early | own
    · exact forwarding.passes (before i ⟨put, early⟩)
    · exact (forwarding.kept last).out i (((graph.drawn_mentioned last).out i).mpr ⟨put, own⟩)
  have inside : i < graph.size := by
    obtain ⟨where_, _, own⟩ := List.mem_flatMap.mp member
    exact graph.bounded where_ (i, put) own
  have nothing := still.2 i (List.mem_range.mpr inside)
  simpa [inside, out] using nothing

end Graph

end Forward

section Backward

variable {ι : Type} [DecidableEq ι] (graph : Graph ι)

namespace Graph

structure Backwarding (start data : ι → Block) : Prop where
  kept : ∀ block, Block.Backwarded (start block) (data block)
  sound : ∀ block i, Reaches graph.edges block graph.junction → (data block).use i = true →
    graph.UsedAfter block i
  reached : ∀ block, (data block).backward = true → Reaches graph.edges block graph.junction

variable {graph} {start data : ι → Block}

omit [DecidableEq ι] in
theorem Backwarding.leads {start data : ι → Block} (backwarding : graph.Backwarding start data)
    {block : ι} (active : Worklist.Active Block.backward graph.junction data block) :
    Reaches graph.edges block graph.junction := by
  rcases active with rfl | returned
  · exact Reaches.refl _ _
  · exact backwarding.reached block returned

/-- Along an edge to a block that leads to the end comes only what is used after. -/
theorem Backwarding.arrives
    (defines : ∀ block, (start block).define = (graph.drawn block).toFacts.view.define)
    (backwarding : graph.Backwarding start data) {node target : ι}
    (reaches : Reaches graph.edges node graph.junction) (edge : (target, node) ∈ graph.edges)
    {i : Nat} (use : (data node).use i = true) (open_ : (data target).define i = false) :
    graph.UsedAfter target i := by
  by_cases defined : (i, true) ∈ graph.mentions target
  · have out := ((graph.drawn_mentioned target).out i).mpr ⟨true, defined⟩
    rw [(backwarding.kept target).define, defines] at open_
    have own := (graph.drawn_mentioned target).either i out
    rw [open_] at own
    refine used_itself (Reaches.cons edge reaches) ?_
    exact ((graph.drawn_mentioned target).use i).mp (own.resolve_left Bool.false_ne_true)
  · obtain ⟨passed, path, exposed⟩ := backwarding.sound node i reaches use
    refine ⟨target :: passed, Path.cons edge path, ?_⟩
    rw [List.cons_append, along_cons, exposed_append]
    exact Or.inr ⟨defined, exposed⟩

theorem Backwarding.step
    (defines : ∀ block, (start block).define = (graph.drawn block).toFacts.view.define)
    (backwarding : graph.Backwarding start data) {node target : ι}
    (active : Worklist.Active Block.backward graph.junction data node)
    (member : target ∈ (graph.drawn node).previouses) :
    graph.Backwarding start (Function.update data target
      (Block.propagateBackward (List.range graph.size) (data node) (data target)).2) := by
  have edge := graph.mem_previouses.mp member
  have reaches := backwarding.leads active
  refine ⟨?_, ?_, ?_⟩
  · apply (Function.forall_update_iff data fun block datum =>
      Block.Backwarded (start block) datum).mpr
    exact ⟨(backwarding.kept target).trans (Block.backward_keeps _ _),
      fun block _ => backwarding.kept block⟩
  · apply (Function.forall_update_iff data fun block datum =>
      ∀ i, Reaches graph.edges block graph.junction → datum.use i = true →
        graph.UsedAfter block i).mpr
    refine ⟨fun i leads use => ?_, fun block _ => backwarding.sound block⟩
    simp only [Block.propagateBackward, Bool.or_eq_true, Bool.and_eq_true,
      Bool.not_eq_true'] at use
    rcases use with already | ⟨⟨⟨_, later⟩, open_⟩, _⟩
    · exact backwarding.sound target i leads already
    · exact backwarding.arrives defines reaches edge later open_
  · apply (Function.forall_update_iff data fun block datum =>
      datum.backward = true → Reaches graph.edges block graph.junction).mpr
    exact ⟨fun _ => Reaches.cons edge reaches, fun block _ => backwarding.reached block⟩

/-- Once the edges are settled, the blocks on a path to the end are visited and have what is
used after their start. -/
theorem Backwarding.complete
    (defines : ∀ block, (start block).define = (graph.drawn block).toFacts.view.define)
    (uses : ∀ block, (start block).use = (graph.drawn block).toFacts.view.use)
    (backwarding : graph.Backwarding start data)
    (settled : ∀ node, Worklist.Active Block.backward graph.junction data node →
      ∀ target ∈ (graph.drawn node).previouses,
        Worklist.Settled (Block.propagateBackward (List.range graph.size)) data node target)
    {passed : List ι} {block last : ι} (path : Path graph.edges block passed last)
    (ends : last = graph.junction) :
    Worklist.Active Block.backward graph.junction data block ∧
      ∀ i, Exposed i (graph.along (passed ++ [graph.junction])) →
        (data block).use i = true := by
  have own (block : ι) (i : Nat) (exposed : Exposed i (graph.mentions block)) :
      (data block).use i = true := by
    refine (backwarding.kept block).use i ?_
    rw [uses]
    exact ((graph.drawn_mentioned block).use i).mpr exposed
  induction path with
  | nil block =>
      subst ends
      refine ⟨Or.inl rfl, fun i exposed => ?_⟩
      rw [List.nil_append, along_cons, exposed_append] at exposed
      rcases exposed with here | ⟨_, nothing⟩
      · exact own _ i here
      · exact absurd nothing not_exposed_nil
  | @cons block next last passed edge _ induction =>
      obtain ⟨active, after⟩ := induction ends
      have still := settled next active block (graph.mem_previouses.mpr edge)
      simp only [Worklist.Settled, Block.propagateBackward, Bool.or_eq_false_iff,
        Bool.not_eq_false', List.any_eq_false] at still
      refine ⟨Or.inr still.1, fun i exposed => ?_⟩
      have inside : i < graph.size := by
        obtain ⟨put, member⟩ := exposed.mentioned
        obtain ⟨where_, _, own⟩ := List.mem_flatMap.mp member
        exact graph.bounded where_ (i, put) own
      rw [List.cons_append, along_cons, exposed_append] at exposed
      rcases exposed with here | ⟨undefined, later⟩
      · exact own block i here
      · have open_ : (data block).define i = false := by
          rw [(backwarding.kept block).define, defines, Bool.eq_false_iff]
          exact fun defined => undefined ((graph.drawn_mentioned block).define i defined)
        have nothing := still.2 i (List.mem_range.mpr inside)
        simpa [inside, after i later, open_] using nothing

end Graph

end Backward

section Analyze

variable {ι : Type} [DecidableEq ι] (graph : Graph ι)

namespace Graph

/-- The result of the analysis: for the blocks that are reached from the entry `v_in` and
`v_out`, for those that lead to the end `v_use`. -/
structure Exact (facts : ι → Facts) : Prop where
  before : ∀ block, Reaches graph.edges graph.entry block → ∀ i < graph.size,
    ∃ x, (facts block).privates[i]? = some x ∧
      (x.in_ = true ↔ graph.MentionedBefore block i) ∧
      (x.out = true ↔ graph.MentionedUpTo block i)
  after : ∀ block, Reaches graph.edges block graph.junction → ∀ i < graph.size,
    ∃ x, (facts block).privates[i]? = some x ∧ (x.use = true ↔ graph.UsedAfter block i)

def Ready (_ : ι) (facts : Facts) : Prop :=
  facts.forward = true ∧ facts.privates.length = graph.size

def Fit (_ : ι) (facts : Facts) : Prop :=
  facts.privates.length ≤ graph.size ∧
    (facts.forward = true → facts.privates.length = graph.size)

theorem forward_viewed :
    Worklist.Viewed forward (Block.propagateForward (List.range graph.size)) Facts.view
      (fun block => (graph.drawn block).nexts) graph.Ready graph.Fit where
  weaken ready := ⟨ready.2.le, fun _ => ready.2⟩
  follows _ ready fit := by
    obtain ⟨after, followed, seen, visited, long⟩ := Facts.forward_view ready.2 fit.1 fit.2
    exact ⟨after, followed, seen, visited, long⟩

theorem backward_viewed :
    Worklist.Viewed backward (Block.propagateBackward (List.range graph.size)) Facts.view
      (fun block => (graph.drawn block).previouses)
      (fun block facts => Reaches graph.edges block graph.junction ∧
        facts.privates.length = graph.size)
      (fun block facts => Reaches graph.edges graph.entry block →
        facts.privates.length = graph.size) where
  weaken ready _ := ready.2
  follows member ready fit := by
    have leads := Reaches.cons (graph.mem_previouses.mp member) ready.1
    obtain ⟨after, followed, seen, long⟩ :=
      Facts.backward_view ready.2 (fit (graph.reached _ leads))
    exact ⟨after, followed, seen, leads, long⟩

/-- The blocks when the first loop begins. -/
structure Entered (blocks : ι → TBlock ι) : Prop where
  begins : Turn.Shows graph.drawn (Turn.first TBlock.nexts graph.entry blocks)
    ⟨fun block => (blocks block).toFacts, [], graph.entry, (graph.drawn graph.entry).nexts⟩
  fit : ∀ block, graph.Fit block (blocks block).toFacts
  ready : graph.Ready graph.entry (blocks graph.entry).toFacts
  forwarding : graph.Forwarding fun block => (blocks block).toFacts.view
  first : ∀ block, (blocks block).forward = true → block = graph.entry

theorem entered_spec : ∃ blocks, graph.entered = some blocks ∧ graph.Entered blocks := by
  let source : Facts := ⟨true, false, List.replicate graph.size Private.empty⟩
  have nothing (i : Nat) : source.view.out i = false := by
    by_cases inside : i < graph.size <;>
      simp [source, Facts.view, List.getElem?_replicate, inside, Private.empty]
  have unvisited (block : ι) : (graph.drawn block).forward = false :=
    (graph.drawn_mentioned block).forward
  have sized : source.privates.length = graph.size := List.length_replicate
  obtain ⟨facts, followed, seen, visited, long⟩ :=
    Facts.forward_view sized (graph.drawn_short graph.entry)
      fun visited => absurd visited (by rw [unvisited]; exact Bool.false_ne_true)
  obtain ⟨blocks, own, other, is⟩ : ∃ blocks : ι → TBlock ι,
      blocks graph.entry = { graph.drawn graph.entry with toFacts := facts } ∧
      (∀ block, block ≠ graph.entry → blocks block = graph.drawn block) ∧
      graph.entered = some blocks := by
    have done : (graph.drawn graph.entry).toFacts.fForward
        (List.replicate graph.size Private.empty) = some (_, facts) := followed
    refine ⟨_, Function.update_self .., fun block apart => Function.update_of_ne apart .., ?_⟩
    rw [entered, done, Option.map_some]
  have kept (block : ι) : Block.Forwarded (graph.drawn block).toFacts.view
      (blocks block).toFacts.view := by
    by_cases same : block = graph.entry
    · subst same
      rw [own, seen]
      exact Block.forward_keeps _ _
    · rw [other block same]
      exact Block.Forwarded.refl _
  have before (block : ι) (i : Nat) : (blocks block).toFacts.view.in_ i = false := by
    by_cases same : block = graph.entry
    · subst same
      rw [own, seen]
      simp [Block.propagateForward, nothing, (graph.drawn_mentioned _).in_]
    · rw [other block same]
      exact (graph.drawn_mentioned block).in_ i
  have first (block : ι) (visited : (blocks block).forward = true) : block = graph.entry := by
    by_contra apart
    rw [other block apart, unvisited] at visited
    cases visited
  have ready : graph.Ready graph.entry (blocks graph.entry).toFacts := by
    rw [own]
    exact ⟨visited, long⟩
  refine ⟨blocks, is,
    ⟨⟨fun block => ⟨rfl, ?_⟩, Ring.Holds.nil _, fun block => ?_, rfl, ?_⟩, fun block => ?_, ready,
      ⟨kept, fun block i in_ => ?_, fun block visited => ?_, ready.1⟩, first⟩⟩
  · by_cases same : block = graph.entry
    · subst same
      simp [Turn.first, own]
    · simp [Turn.first, other block same]
  · by_cases same : block = graph.entry
    · subst same
      simp [Turn.first, own, graph.drawn_queue]
    · simp [Turn.first, other block same, graph.drawn_queue]
  · simp [Turn.first, own]
  · by_cases same : block = graph.entry
    · subst same
      exact ⟨ready.2.le, fun _ => ready.2⟩
    · rw [other block same]
      exact ⟨graph.drawn_short block, fun visited => absurd visited (by simp [unvisited])⟩
  · rw [before] at in_
    cases in_
  · rw [first block visited]
    exact Reaches.refl _ _

variable {graph}

section First

variable {blocks : ι → TBlock ι} {visit : Worklist.Visit ι Facts}

theorem Entered.reached (entered : graph.Entered blocks)
    (reached : Worklist.Reached forward (fun block => (graph.drawn block).nexts) graph.entry
      (fun block => (blocks block).toFacts) visit) :
    Worklist.Fits (fun block => (graph.drawn block).nexts) graph.Ready graph.Fit visit ∧
      Worklist.Pending (Block.propagateForward (List.range graph.size)) Block.forward
        (fun block => (graph.drawn block).nexts) graph.entry (visit.map Facts.view) ∧
      graph.Forwarding (visit.map Facts.view).data :=
  graph.forward_viewed.reached (Block.forward_lawful _) entered.first entered.fit entered.ready
    (fun active member forwarding => forwarding.step active member) entered.forwarding reached

/-- What the first loop leaves. -/
structure Through (graph : Graph ι) (facts : ι → Facts) : Prop where
  full : ∀ block, Reaches graph.edges graph.entry block →
    (facts block).privates.length = graph.size
  forwarding : graph.Forwarding fun block => (facts block).view
  complete : ∀ {passed : List ι} {block : ι}, Path graph.edges graph.entry passed block →
    ∀ i, (∃ put, (i, put) ∈ graph.along passed) → (facts block).view.in_ i = true

theorem Forwarding.visited {data : ι → Block} (forwarding : graph.Forwarding data) {block : ι}
    (active : Worklist.Active Block.forward graph.entry data block) :
    (data block).forward = true := by
  rcases active with rfl | visited
  · exact forwarding.entry
  · exact visited

theorem Forwarding.through {facts : ι → Facts} (fit : ∀ block, graph.Fit block (facts block))
    (forwarding : graph.Forwarding fun block => (facts block).view)
    (settled : ∀ node,
      Worklist.Active Block.forward graph.entry (fun block => (facts block).view) node →
      ∀ target ∈ (graph.drawn node).nexts,
        Worklist.Settled (Block.propagateForward (List.range graph.size))
          (fun block => (facts block).view) node target) :
    graph.Through facts where
  full := by
    rintro block ⟨passed, path⟩
    exact (fit block).2 (forwarding.visited (forwarding.complete settled path).1)
  forwarding := forwarding
  complete path i mentioned := (forwarding.complete settled path).2 i mentioned

theorem Entered.achieves (entered : graph.Entered blocks) :
    Worklist.Achieves forward (fun block => (graph.drawn block).nexts) graph.entry
      (fun block => (blocks block).toFacts) graph.Through := by
  have closed (node target : ι) (member : target ∈ (graph.drawn node).nexts) :
      target ∈ (graph.edges.map (·.2)).toFinset :=
    List.mem_toFinset.mpr (List.mem_map.mpr ⟨_, graph.mem_nexts.mp member, rfl⟩)
  exact graph.forward_viewed.achieves (Block.forward_lawful _) entered.first entered.fit
    entered.ready closed (fun active member forwarding => forwarding.step active member)
    entered.forwarding fun facts fit forwarding settled => forwarding.through fit settled

theorem Entered.kept (entered : graph.Entered blocks) {turn : Turn ι}
    (shows_ : turn.Shows graph.drawn visit)
    (reached : Worklist.Reached forward (fun block => (graph.drawn block).nexts) graph.entry
      (fun block => (blocks block).toFacts) visit) :
    turn.Kept forward TBlock.nexts Facts.forward graph.entry := by
  obtain ⟨fits, pending, forwarding⟩ := entered.reached reached
  have ready (block : ι) (active : Worklist.Active Block.forward graph.entry
      (visit.map Facts.view).data block) : graph.Ready block (visit.data block) := by
    have visited : (visit.data block).forward = true := forwarding.visited active
    exact ⟨visited, (fits.every block).2 visited⟩
  have kept : turn.Kept forward TBlock.nexts (fun facts => facts.view.forward) graph.entry :=
    Turn.Shows.kept (fun _ nexts => nexts) graph.forward_viewed shows_ fits.every ready pending
  exact kept

end First

section Second

variable {facts : ι → Facts} {visit : Worklist.Visit ι Facts}

theorem Through.defines (through : graph.Through facts) (block : ι) :
    (facts block).view.define = (graph.drawn block).toFacts.view.define :=
  (through.forwarding.kept block).define

theorem Through.uses (through : graph.Through facts) (block : ι) :
    (facts block).view.use = (graph.drawn block).toFacts.view.use :=
  (through.forwarding.kept block).use

theorem Through.unreturned (through : graph.Through facts) (block : ι) :
    (facts block).view.backward = false :=
  ((through.forwarding.kept block).backward).trans (graph.drawn_mentioned block).backward

theorem Through.first (through : graph.Through facts) (block : ι)
    (returned : (facts block).view.backward = true) : block = graph.junction := by
  rw [through.unreturned] at returned
  cases returned

theorem Through.ready (through : graph.Through facts) :
    Reaches graph.edges graph.junction graph.junction ∧
      (facts graph.junction).privates.length = graph.size :=
  ⟨Reaches.refl _ _, through.full _ (graph.reached _ (Reaches.refl _ _))⟩

theorem Through.backwarding (through : graph.Through facts) :
    graph.Backwarding (fun block => (facts block).view) fun block => (facts block).view where
  kept _ := Block.Backwarded.refl _
  sound block i reaches use := by
    rw [through.uses] at use
    exact used_itself reaches (((graph.drawn_mentioned block).use i).mp use)
  reached block returned := by
    rw [through.unreturned] at returned
    cases returned

theorem Through.reached (through : graph.Through facts)
    (reached : Worklist.Reached backward (fun block => (graph.drawn block).previouses)
      graph.junction facts visit) :
    Worklist.Fits (fun block => (graph.drawn block).previouses)
        (fun block facts => Reaches graph.edges block graph.junction ∧
          facts.privates.length = graph.size)
        (fun block facts => Reaches graph.edges graph.entry block →
          facts.privates.length = graph.size) visit ∧
      Worklist.Pending (Block.propagateBackward (List.range graph.size)) Block.backward
        (fun block => (graph.drawn block).previouses) graph.junction (visit.map Facts.view) ∧
      graph.Backwarding (fun block => (facts block).view) (visit.map Facts.view).data :=
  graph.backward_viewed.reached (Block.backward_lawful _) through.first through.full
    through.ready
    (fun active member backwarding => backwarding.step through.defines active member)
    through.backwarding reached

theorem Through.exact (through : graph.Through facts) {after : ι → Facts}
    (full : ∀ block, Reaches graph.edges graph.entry block →
      (after block).privates.length = graph.size)
    (backwarding : graph.Backwarding (fun block => (facts block).view)
      fun block => (after block).view)
    (settled : ∀ node,
      Worklist.Active Block.backward graph.junction (fun block => (after block).view) node →
      ∀ target ∈ (graph.drawn node).previouses,
        Worklist.Settled (Block.propagateBackward (List.range graph.size))
          (fun block => (after block).view) node target) :
    graph.Exact after := by
  have at_ {block : ι} {i : Nat} (reaches : Reaches graph.edges graph.entry block)
      (inside : i < graph.size) : ∃ x, (after block).privates[i]? = some x ∧
        (after block).privates.getD i Private.empty = x := by
    rw [← full block reaches] at inside
    exact ⟨_, List.getElem?_eq_getElem inside, List.getD_eq_getElem _ _ inside⟩
  constructor
  · intro block reaches i inside
    obtain ⟨x, is, seen⟩ := at_ reaches inside
    have in_ : x.in_ = (facts block).view.in_ i := by
      rw [← seen, ← (backwarding.kept block).in_]
      rfl
    have out : x.out = (facts block).view.out i := by
      rw [← seen, ← (backwarding.kept block).out]
      rfl
    refine ⟨x, is, ?_, ?_⟩
    · rw [in_]
      refine ⟨through.forwarding.sound block i, ?_⟩
      rintro ⟨passed, path, mentioned⟩
      exact through.complete path i mentioned
    · rw [out]
      constructor
      · intro present
        rcases (through.forwarding.kept block).arrived i present with own | earlier
        · obtain ⟨put, member⟩ := ((graph.drawn_mentioned block).out i).mp own
          exact mentioned_least.1.mention reaches i put member
        · exact mentioned_least.1.pass reaches i (through.forwarding.sound block i earlier)
      · rintro ⟨passed, path, put, member⟩
        rw [along_concat] at member
        rcases List.mem_append.mp member with early | own
        · exact through.forwarding.passes (through.complete path i ⟨put, early⟩)
        · exact (through.forwarding.kept block).out i
            (((graph.drawn_mentioned block).out i).mpr ⟨put, own⟩)
  · intro block reaches i inside
    obtain ⟨x, is, seen⟩ := at_ (graph.reached block reaches) inside
    have use : x.use = (after block).view.use i := by
      rw [← seen]
      rfl
    refine ⟨x, is, ?_⟩
    rw [use]
    refine ⟨backwarding.sound block i reaches, ?_⟩
    rintro ⟨passed, path, exposed⟩
    exact (backwarding.complete through.defines through.uses settled path rfl).2 i exposed

theorem Through.achieves (through : graph.Through facts) :
    Worklist.Achieves backward (fun block => (graph.drawn block).previouses) graph.junction
      facts graph.Exact := by
  have closed (node target : ι) (member : target ∈ (graph.drawn node).previouses) :
      target ∈ (graph.edges.map (·.1)).toFinset :=
    List.mem_toFinset.mpr (List.mem_map.mpr ⟨_, graph.mem_previouses.mp member, rfl⟩)
  exact graph.backward_viewed.achieves (Block.backward_lawful _) through.first through.full
    through.ready closed
    (fun active member backwarding => backwarding.step through.defines active member)
    through.backwarding fun after full backwarding settled =>
      through.exact full backwarding settled

theorem Through.kept (through : graph.Through facts) {turn : Turn ι}
    (shows_ : turn.Shows graph.drawn visit)
    (reached : Worklist.Reached backward (fun block => (graph.drawn block).previouses)
      graph.junction facts visit) :
    turn.Kept backward TBlock.previouses Facts.backward graph.junction := by
  obtain ⟨fits, pending, backwarding⟩ := through.reached reached
  have ready (block : ι) (active : Worklist.Active Block.backward graph.junction
      (visit.map Facts.view).data block) : Reaches graph.edges block graph.junction ∧
        (visit.data block).privates.length = graph.size := by
    have leads := backwarding.leads active
    exact ⟨leads, fits.every block (graph.reached block leads)⟩
  have kept : turn.Kept backward TBlock.previouses (fun facts => facts.view.backward)
      graph.junction :=
    Turn.Shows.kept (fun previouses _ => previouses) graph.backward_viewed shows_ fits.every
      ready pending
  exact kept

end Second

theorem Entered.turn {blocks : ι → TBlock ι} (entered : graph.Entered blocks)
    (is : graph.entered = some blocks) {turn : Turn ι} (forwards : graph.ForwardTurn turn) :
    ∃ visit, turn.Shows graph.drawn visit ∧
      Worklist.Reached forward (fun block => (graph.drawn block).nexts) graph.entry
        (fun block => (blocks block).toFacts) visit := by
  obtain ⟨blocks', is', steps⟩ := forwards
  obtain rfl : blocks = blocks' := Option.some.inj (is.symm.trans is')
  obtain ⟨visit, moves, shown⟩ := entered.begins.steps forward (fun _ nexts => nexts) steps
  exact ⟨visit, shown, _, List.Perm.refl _, moves⟩

/-- `t_scope::f_analyze` returns with the exact result. -/
theorem returns (graph : Graph ι) :
    ∃ fuel, ∀ more, fuel ≤ more → ∃ blocks, graph.fAnalyze more = some blocks ∧
      graph.Exact fun block => (blocks block).toFacts := by
  obtain ⟨blocks, is, entered⟩ := graph.entered_spec
  have achieves := entered.achieves
  obtain ⟨first, visit, shown, ended, moves, fuel, returns⟩ :=
    entered.begins.loop forward (fun _ nexts => nexts)
      (achieves.terminates _ ⟨_, List.Perm.refl _, Relation.ReflTransGen.refl⟩)
      fun after moves => achieves.proceeds after ⟨_, List.Perm.refl _, moves⟩
  have through := achieves.ends visit ⟨_, List.Perm.refl _, moves⟩ ended
  obtain ⟨second, visit', shown', ended', moves', fuel', returns'⟩ :=
    (shown.again (fun previouses _ => previouses) ended graph.junction).loop backward
      (fun previouses _ => previouses)
      (through.achieves.terminates _ ⟨_, List.Perm.refl _, Relation.ReflTransGen.refl⟩)
      fun after moves => through.achieves.proceeds after ⟨_, List.Perm.refl _, moves⟩
  have exact_ := through.achieves.ends visit' ⟨_, List.Perm.refl _, moves'⟩ ended'
  refine ⟨fuel + fuel', fun more enough => ⟨second.blocks, ?_, ?_⟩⟩
  · rw [fAnalyze, is, Option.bind_some, returns more (by omega), Option.bind_some]
    exact returns' more (by omega)
  · have same : (fun block => (second.blocks block).toFacts) = visit'.data :=
      funext fun block => (shown'.frame block).1
    rw [same]
    exact exact_

/-- `t_scope::f_analyze` returns with the exact result; it would with any order of the blocks
and of their neighbours; the result is the least solution of the equations of the two passes;
and the queue is kept throughout both loops. -/
theorem analyzed (graph : Graph ι) :
    (∃ fuel, ∀ more, fuel ≤ more → ∃ blocks, graph.fAnalyze more = some blocks ∧
      graph.Exact fun block => (blocks block).toFacts) ∧
    (∃ blocks, graph.entered = some blocks ∧
      Worklist.Achieves forward (fun block => (graph.drawn block).nexts) graph.entry
        (fun block => (blocks block).toFacts) fun facts =>
          Worklist.Achieves backward (fun block => (graph.drawn block).previouses)
            graph.junction facts graph.Exact) ∧
    IsLeast {sets | graph.Forwards sets} (graph.MentionedBefore, graph.MentionedUpTo) ∧
    IsLeast {sets | graph.Backwards sets} graph.UsedAfter ∧
    (∀ turn, graph.ForwardTurn turn →
      turn.Kept forward TBlock.nexts Facts.forward graph.entry) ∧
    ∀ turn, graph.BackwardTurn turn →
      turn.Kept backward TBlock.previouses Facts.backward graph.junction := by
  obtain ⟨blocks, is, entered⟩ := graph.entered_spec
  have achieves := entered.achieves
  refine ⟨graph.returns, ⟨blocks, is, ?_⟩, mentioned_least, used_least, ?_, ?_⟩
  · exact { achieves with ends := fun visit reached ended =>
      (achieves.ends visit reached ended).achieves }
  · intro turn forwards
    obtain ⟨visit, shown, reached⟩ := entered.turn is forwards
    exact entered.kept shown reached
  · rintro turn ⟨last, blocks', forwards, finished, steps⟩
    obtain ⟨visit, shown, reached⟩ := entered.turn is forwards
    have spec := shown.step forward (fun _ nexts => nexts)
    rw [finished] at spec
    obtain ⟨ended, rfl⟩ := spec
    have through := achieves.ends visit reached ended
    obtain ⟨visit', moves, shown'⟩ :=
      (shown.again (fun previouses _ => previouses) ended graph.junction).steps backward
        (fun previouses _ => previouses) steps
    exact through.kept shown' ⟨_, List.Perm.refl _, moves⟩

end Graph

end Analyze

end Xemmai.Dataflow
