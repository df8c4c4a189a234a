import Mathlib

/-!
# Chains of links

Nodes that point at the next node, or at none. A strand is what following the
links from a node leads through, up to where they end: a ring comes back to its
first node, a stack ends at none. A node is taken out of a strand by one write,
and put into one by two, and strands that share no node do not see these writes.
-/

namespace Xemmai

set_option autoImplicit false

variable {ν : Type}

/-- Following the links from `first` leads through the nodes, and then to `last`. -/
def Chain (next : ν → Option ν) (first : ν) : List ν → Option ν → Prop
  | [], last => next first = last
  | node :: nodes, last => next first = some node ∧ Chain next node nodes last

namespace Chain

variable {next other : ν → Option ν} {first : ν} {last : Option ν} {nodes : List ν}

theorem congr (same : ∀ node ∈ first :: nodes, other node = next node)
    (chain : Chain next first nodes last) : Chain other first nodes last := by
  induction nodes generalizing first with
  | nil =>
    rw [Chain, same first List.mem_cons_self]
    exact chain
  | cons node nodes ih =>
    refine ⟨?_, ih (fun node member => same node (List.mem_cons_of_mem _ member)) chain.2⟩
    rw [same first List.mem_cons_self]
    exact chain.1

theorem append_iff {joint : ν} {rest : List ν} :
    Chain next first (nodes ++ joint :: rest) last ↔
      Chain next first nodes (some joint) ∧ Chain next joint rest last := by
  induction nodes generalizing first with
  | nil => rfl
  | cons node nodes ih =>
    simp only [List.cons_append, Chain, ih, and_assoc]

theorem next_first {end' : ν} (chain : Chain next first nodes (some end')) :
    next first = some (nodes.head?.getD end') := by
  cases nodes with
  | nil => exact chain
  | cons node nodes => exact chain.1

theorem linked {end' : ν} (chain : Chain next first nodes (some end')) {node : ν}
    (member : node ∈ first :: nodes) : ∃ target, next node = some target := by
  induction nodes generalizing first with
  | nil =>
    rw [List.mem_singleton.mp member]
    exact ⟨end', chain⟩
  | cons second nodes ih =>
    rcases List.mem_cons.mp member with rfl | member
    · exact ⟨second, chain.1⟩
    · exact ih chain.2 member

theorem rotate {node : ν} (chain : Chain next first (node :: nodes) (some first)) :
    Chain next node (nodes ++ [first]) (some node) := by
  rw [append_iff]
  exact ⟨chain.2, chain.1⟩

theorem joint_mem : nodes.getLast?.getD first ∈ first :: nodes := by
  rw [← List.getLastD_eq_getLast?]
  exact List.getLastD_mem_cons

section Update

variable [DecidableEq ν]

theorem update (chain : Chain next first nodes last) {node : ν} (target : Option ν)
    (outside : node ∉ first :: nodes) :
    Chain (Function.update next node target) first nodes last := by
  apply chain.congr
  intro other member
  exact Function.update_of_ne (by rintro rfl; exact outside member) _ _

theorem redirect (chain : Chain next first nodes last) (target : Option ν)
    (nodup : (first :: nodes).Nodup) :
    Chain (Function.update next (nodes.getLast?.getD first) target) first nodes target := by
  induction nodes generalizing first with
  | nil => exact Function.update_self _ _ _
  | cons node nodes ih =>
    have apart := List.nodup_cons.mp nodup
    have same : (node :: nodes).getLast?.getD first = nodes.getLast?.getD node := by
      simp [List.getLast?_cons]
    rw [same]
    refine ⟨?_, ih chain.2 apart.2⟩
    rw [Function.update_of_ne (by intro same; exact apart.1 (same ▸ joint_mem))]
    exact chain.1

theorem unlink {before after : List ν} {node : ν}
    (chain : Chain next first (before ++ node :: after) last)
    (nodup : (first :: (before ++ node :: after)).Nodup) :
    Chain (Function.update next (before.getLast?.getD first) (next node)) first
      (before ++ after) last := by
  obtain ⟨front, back⟩ := append_iff.mp chain
  have apart := nodup
  rw [← List.cons_append, List.nodup_append] at apart
  cases after with
  | nil =>
    have ends : next node = last := back
    rw [ends, List.append_nil]
    exact front.redirect last apart.1
  | cons second after =>
    rw [append_iff, back.1]
    refine ⟨front.redirect _ apart.1, ?_⟩
    apply back.2.update
    intro member
    exact apart.2.2 _ joint_mem _ (List.mem_cons_of_mem _ member) rfl

theorem insert (chain : Chain next first nodes last) {node : ν}
    (nodup : (first :: nodes).Nodup) (fresh : node ∉ first :: nodes) :
    Chain (Function.update (Function.update next node (next first)) first (some node)) first
      (node :: nodes) last := by
  have other : node ≠ first := by rintro rfl; exact fresh List.mem_cons_self
  refine ⟨Function.update_self _ _ _, ?_⟩
  cases nodes with
  | nil =>
    have ends : next first = last := chain
    rw [Chain, Function.update_of_ne other, Function.update_self, ends]
  | cons second nodes =>
    refine ⟨?_, ?_⟩
    · rw [Function.update_of_ne other, Function.update_self, chain.1]
    · apply Chain.update _ _ (List.nodup_cons.mp nodup).1
      exact chain.2.update _ fun member => fresh (List.mem_cons_of_mem _ member)

theorem extend (chain : Chain next first nodes last) {node : ν}
    (nodup : (first :: nodes).Nodup) (fresh : node ∉ first :: nodes) :
    Chain (Function.update (Function.update next node last) (nodes.getLast?.getD first)
      (some node)) first (nodes ++ [node]) last := by
  rw [append_iff]
  refine ⟨(chain.update last fresh).redirect _ nodup, ?_⟩
  rw [Chain, Function.update_of_ne (by rintro rfl; exact fresh joint_mem)]
  exact Function.update_self _ _ _

end Update

end Chain

/-- A node, what follows it, and where its links end. -/
structure Strand (ν : Type) where
  first : ν
  nodes : List ν
  last : Option ν

namespace Strand

def members (strand : Strand ν) : List ν := strand.first :: strand.nodes

def Linked (next : ν → Option ν) (strand : Strand ν) : Prop :=
  Chain next strand.first strand.nodes strand.last

def all (strands : List (Strand ν)) : List ν := strands.flatMap members

@[simp] theorem members_mk (first : ν) (nodes : List ν) (last : Option ν) :
    (Strand.mk first nodes last).members = first :: nodes := rfl

@[simp] theorem all_nil : all ([] : List (Strand ν)) = [] := rfl

@[simp] theorem all_cons (strand : Strand ν) (strands : List (Strand ν)) :
    all (strand :: strands) = strand.members ++ all strands := rfl

@[simp] theorem all_append (front back : List (Strand ν)) :
    all (front ++ back) = all front ++ all back := by
  simp [all]

theorem mem_perm {strands strands' : List (Strand ν)} (same : strands.Perm strands')
    {node : ν} : node ∈ all strands ↔ node ∈ all strands' :=
  (same.flatMap_right members).mem_iff

def tails (last : Option ν) : List ν → List (Strand ν)
  | [] => []
  | node :: nodes => [⟨node, nodes, last⟩]

@[simp] theorem all_tails (last : Option ν) (nodes : List ν) : all (tails last nodes) = nodes := by
  cases nodes <;> simp [tails, all]

end Strand

/-- Each strand is linked, and no node is in two places. -/
structure Threaded (next : ν → Option ν) (strands : List (Strand ν)) : Prop where
  linked : ∀ strand ∈ strands, strand.Linked next
  nodup : (Strand.all strands).Nodup

namespace Threaded

variable {next other : ν → Option ν} {strand strand' : Strand ν}
  {strands strands' : List (Strand ν)}

theorem perm (threaded : Threaded next strands) (same : strands.Perm strands') :
    Threaded next strands' where
  linked strand member := threaded.linked strand (same.mem_iff.mpr member)
  nodup := (same.flatMap_right Strand.members).nodup_iff.mp threaded.nodup

theorem congr (threaded : Threaded next strands)
    (same : ∀ node ∈ Strand.all strands, other node = next node) :
    Threaded other strands where
  linked strand member := by
    apply (threaded.linked strand member).congr
    intro node inside
    exact same node (List.mem_flatMap.mpr ⟨strand, member, inside⟩)
  nodup := threaded.nodup

theorem rest (threaded : Threaded next (strand :: strands)) : Threaded next strands where
  linked strand member := threaded.linked strand (List.mem_cons_of_mem _ member)
  nodup := (List.nodup_append.mp threaded.nodup).2.1

theorem back (threaded : Threaded next (strands' ++ strands)) : Threaded next strands where
  linked strand member := threaded.linked strand (List.mem_append_right _ member)
  nodup := by
    have nodup := threaded.nodup
    rw [Strand.all_append] at nodup
    exact (List.nodup_append.mp nodup).2.1

theorem first (threaded : Threaded next (strand :: strands)) : strand.Linked next :=
  threaded.linked strand List.mem_cons_self

theorem first_nodup (threaded : Threaded next (strand :: strands)) : strand.members.Nodup :=
  (List.nodup_append.mp threaded.nodup).1

theorem apart (threaded : Threaded next (strand :: strands)) {node : ν}
    (member : node ∈ strand.members) : node ∉ Strand.all strands :=
  fun elsewhere => (List.nodup_append.mp threaded.nodup).2.2 _ member _ elsewhere rfl

theorem cons (threaded : Threaded next strands) (linked : strand.Linked next)
    (nodup : strand.members.Nodup)
    (apart : ∀ node ∈ strand.members, node ∉ Strand.all strands) :
    Threaded next (strand :: strands) where
  linked := List.forall_mem_cons.mpr ⟨linked, threaded.linked⟩
  nodup := List.nodup_append.mpr
    ⟨nodup, threaded.nodup, fun node member _ elsewhere same =>
      apart node member (same ▸ elsewhere)⟩

theorem replace (threaded : Threaded next (strand :: strands))
    (same : ∀ node ∈ Strand.all strands, other node = next node)
    (linked : strand'.Linked other) (nodup : strand'.members.Nodup)
    (apart : ∀ node ∈ strand'.members, node ∉ Strand.all strands) :
    Threaded other (strand' :: strands) :=
  (threaded.rest.congr same).cons linked nodup apart

theorem swap (threaded : Threaded next (strand :: strand' :: strands)) :
    Threaded next (strand' :: strand :: strands) :=
  threaded.perm (List.Perm.swap _ _ _)

variable {head node : ν} {last : Option ν} {nodes before after : List ν}

theorem unlink_fresh
    (threaded : Threaded next (⟨head, before ++ node :: after, last⟩ :: strands)) :
    node ∉ Strand.all (⟨head, before ++ after, last⟩ :: strands) := by
  have inside : node ∈ (Strand.mk head (before ++ node :: after) last).members := by simp
  have nodup := threaded.first_nodup
  have apart := threaded.apart inside
  rw [Strand.members_mk, ← List.cons_append, List.nodup_middle, List.nodup_cons] at nodup
  rw [Strand.all_cons, List.mem_append, Strand.members_mk, ← List.cons_append]
  rintro (member | member)
  · exact nodup.1 member
  · exact apart member

theorem pull (threaded : Threaded next (⟨head, nodes, last⟩ :: strands)) :
    Threaded next (Strand.tails last nodes ++ strands) := by
  cases nodes with
  | nil => exact threaded.rest
  | cons second nodes =>
    apply threaded.replace
    · exact fun _ _ => rfl
    · exact threaded.first.2
    · exact (List.nodup_cons.mp threaded.first_nodup).2
    · intro other member
      exact threaded.apart (List.mem_cons_of_mem _ member)

theorem pull_fresh (threaded : Threaded next (⟨head, nodes, last⟩ :: strands)) :
    head ∉ Strand.all (Strand.tails last nodes ++ strands) := by
  have nodup := threaded.nodup
  rw [Strand.all_cons, Strand.members_mk, List.cons_append, List.nodup_cons] at nodup
  rw [Strand.all_append, Strand.all_tails]
  exact nodup.1

section Update

variable [DecidableEq ν]

theorem update (threaded : Threaded next strands) (target : Option ν)
    (outside : node ∉ Strand.all strands) :
    Threaded (Function.update next node target) strands := by
  apply threaded.congr
  intro other member
  exact Function.update_of_ne (by rintro rfl; exact outside member) _ _

theorem unlink (threaded : Threaded next (⟨head, before ++ node :: after, last⟩ :: strands)) :
    Threaded (Function.update next (before.getLast?.getD head) (next node))
      (⟨head, before ++ after, last⟩ :: strands) := by
  have fewer : (head :: (before ++ after)).Sublist (head :: (before ++ node :: after)) :=
    ((List.sublist_cons_self node after).append_left before).cons_cons head
  have kept : before.getLast?.getD head ∈ head :: (before ++ node :: after) := by
    rw [← List.cons_append]
    exact List.mem_append_left _ Chain.joint_mem
  apply threaded.replace
  · intro other member
    exact Function.update_of_ne (by rintro rfl; exact threaded.apart kept member) _ _
  · exact threaded.first.unlink threaded.first_nodup
  · exact fewer.nodup threaded.first_nodup
  · intro other member
    exact threaded.apart (fewer.subset member)

theorem insert (threaded : Threaded next (⟨head, nodes, last⟩ :: strands))
    (fresh : node ∉ Strand.all (⟨head, nodes, last⟩ :: strands)) :
    Threaded (Function.update (Function.update next node (next head)) head (some node))
      (⟨head, node :: nodes, last⟩ :: strands) := by
  rw [Strand.all_cons, List.mem_append, not_or, Strand.members_mk] at fresh
  apply threaded.replace
  · intro other member
    rw [Function.update_of_ne (by rintro rfl; exact threaded.apart List.mem_cons_self member),
      Function.update_of_ne (by rintro rfl; exact fresh.2 member)]
  · exact threaded.first.insert threaded.first_nodup fresh.1
  · exact (List.Perm.swap head node nodes).nodup_iff.mp
      (List.nodup_cons.mpr ⟨fresh.1, threaded.first_nodup⟩)
  · intro other member
    rw [Strand.members_mk, List.mem_cons, List.mem_cons] at member
    rcases member with rfl | rfl | member
    · exact threaded.apart List.mem_cons_self
    · exact fresh.2
    · exact threaded.apart (List.mem_cons_of_mem _ member)

theorem extend (threaded : Threaded next (⟨head, nodes, last⟩ :: strands))
    (fresh : node ∉ Strand.all (⟨head, nodes, last⟩ :: strands)) :
    Threaded (Function.update (Function.update next node last) (nodes.getLast?.getD head)
      (some node)) (⟨head, nodes ++ [node], last⟩ :: strands) := by
  rw [Strand.all_cons, List.mem_append, not_or, Strand.members_mk] at fresh
  apply threaded.replace
  · intro other member
    rw [Function.update_of_ne (by rintro rfl; exact threaded.apart Chain.joint_mem member),
      Function.update_of_ne (by rintro rfl; exact fresh.2 member)]
  · exact threaded.first.extend threaded.first_nodup fresh.1
  · rw [Strand.members_mk, ← List.cons_append, ← List.concat_eq_append]
    exact threaded.first_nodup.concat fresh.1
  · intro other member
    rw [Strand.members_mk, ← List.cons_append, List.mem_append, List.mem_singleton] at member
    rcases member with member | rfl
    · exact threaded.apart member
    · exact fresh.2

end Update

theorem rotate {rest : List ν} (threaded : Threaded next (⟨head, nodes, some head⟩ :: strands))
    (around : nodes ++ [head] = node :: rest) :
    next head = some node ∧ Threaded next (⟨node, rest, some node⟩ :: strands) := by
  cases nodes with
  | nil =>
    obtain ⟨rfl, rfl⟩ : head = node ∧ [] = rest := by simpa using around
    exact ⟨threaded.first, threaded⟩
  | cons second nodes =>
    obtain ⟨rfl, rfl⟩ : second = node ∧ nodes ++ [head] = rest := by simpa using around
    have same : (head :: second :: nodes).Perm (second :: (nodes ++ [head])) :=
      (List.perm_append_singleton head (second :: nodes)).symm
    refine ⟨threaded.first.1, ?_⟩
    apply threaded.replace
    · exact fun _ _ => rfl
    · exact Chain.rotate threaded.first
    · exact same.nodup_iff.mp threaded.first_nodup
    · intro other member
      exact threaded.apart (same.mem_iff.mpr member)

end Threaded

end Xemmai
