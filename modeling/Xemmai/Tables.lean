import Mathlib.Data.List.Induction
import Mathlib.Data.List.Nodup
import Mathlib.Order.Lattice

/-!
# Ordered tables

Lists of entries in the order of their keys, as iterating a `std::map` yields them, and
the search for a key by halving.
-/

namespace Xemmai.Keyed

set_option autoImplicit false

variable {κ α : Type} [LinearOrder κ]

def Ordered (table : List (κ × α)) : Prop :=
  (table.map Prod.fst).Pairwise (· < ·)

def find (key : κ) : List (κ × α) → Option α
  | [] => none
  | entry :: rest => if entry.1 = key then some entry.2 else find key rest

/-- `emplace` leaves the value of a key that there is. -/
def emplace (key : κ) (value : α) : List (κ × α) → List (κ × α)
  | [] => [(key, value)]
  | entry :: rest =>
      if key < entry.1 then (key, value) :: entry :: rest
      else if entry.1 = key then entry :: rest
      else entry :: emplace key value rest

/-- Assigning to `at` the key, where there is the key. -/
def assign (key : κ) (value : α) (table : List (κ × α)) : List (κ × α) :=
  table.map fun entry => if entry.1 = key then (entry.1, value) else entry

/-- The search for a key among the entries from `i` and before `j`. -/
def search (table : List (κ × α)) (key : κ) (i j : Nat) : Option α :=
  if i < j then
    match table[(i + j) / 2]? with
    | none => none
    | some entry =>
        if entry.1 = key then some entry.2
        else if entry.1 < key then search table key ((i + j) / 2 + 1) j
        else search table key i ((i + j) / 2)
  else none
termination_by j - i

/-- `lower_bound`: the place of the first entry whose key is not below a key. -/
def lowerBound (key : κ) (table : List (κ × α)) : Nat :=
  table.findIdx fun entry => decide (key ≤ entry.1)

/-- `erase` of a key. -/
def erase (key : κ) (table : List (κ × α)) : List (κ × α) :=
  table.filter fun entry => decide (entry.1 ≠ key)

variable {table : List (κ × α)} {key other : κ} {value : α} {entry : κ × α}

theorem ordered_cons : Ordered (entry :: table) ↔
    (∀ entry' ∈ table, entry.1 < entry'.1) ∧ Ordered table := by
  simp [Ordered]

theorem mem_of_find (found : find key table = some value) : (key, value) ∈ table := by
  induction table with
  | nil => cases found
  | cons entry table induction =>
      rw [find] at found
      split at found
      · rename_i same
        subst same
        obtain rfl := Option.some.inj found
        exact List.mem_cons_self
      · exact List.mem_cons_of_mem _ (induction found)

theorem find_of_mem (ordered : Ordered table) (member : (key, value) ∈ table) :
    find key table = some value := by
  induction table with
  | nil => cases member
  | cons entry table induction =>
      obtain ⟨first, rest⟩ := ordered_cons.mp ordered
      rcases List.mem_cons.mp member with rfl | later
      · exact if_pos rfl
      · rw [find, if_neg (ne_of_lt (first _ later))]
        exact induction rest later

theorem find_iff (ordered : Ordered table) :
    find key table = some value ↔ (key, value) ∈ table :=
  ⟨mem_of_find, find_of_mem ordered⟩

theorem find_none_iff : find key table = none ↔ key ∉ table.map Prod.fst := by
  induction table with
  | nil => simp [find]
  | cons entry table induction =>
      rw [find, List.map_cons, List.mem_cons, not_or]
      split
      · rename_i same
        simp [same]
      · rename_i other
        rw [induction]
        exact ⟨fun absent => ⟨Ne.symm other, absent⟩, And.right⟩

theorem mem_emplace (member : entry ∈ emplace key value table) :
    entry = (key, value) ∨ entry ∈ table := by
  induction table with
  | nil => exact .inl (List.mem_singleton.mp member)
  | cons first table induction =>
      rw [emplace] at member
      split at member
      · exact List.mem_cons.mp member
      · split at member
        · exact .inr member
        · rcases List.mem_cons.mp member with rfl | later
          · exact .inr List.mem_cons_self
          · exact (induction later).imp_right (List.mem_cons_of_mem _)

theorem ordered_emplace (ordered : Ordered table) : Ordered (emplace key value table) := by
  induction table with
  | nil => simp [emplace, Ordered]
  | cons first table induction =>
      obtain ⟨below, rest⟩ := ordered_cons.mp ordered
      rw [emplace]
      split
      · rename_i less
        refine ordered_cons.mpr ⟨fun entry member => ?_, ordered⟩
        rcases List.mem_cons.mp member with rfl | later
        · exact less
        · exact less.trans (below entry later)
      · split
        · exact ordered
        · rename_i notLess other
          refine ordered_cons.mpr ⟨fun entry member => ?_, induction rest⟩
          rcases mem_emplace member with rfl | later
          · exact lt_of_le_of_ne (not_lt.mp notLess) other
          · exact below entry later

theorem find_emplace (ordered : Ordered table) (absent : find key table = none) :
    find other (emplace key value table) =
      if other = key then some value else find other table := by
  induction table with
  | nil =>
      by_cases same : key = other
      · simp [emplace, find, same]
      · simp [emplace, find, same, Ne.symm same]
  | cons first table induction =>
      obtain ⟨below, rest⟩ := ordered_cons.mp ordered
      rw [find] at absent
      split at absent
      · cases absent
      · rename_i apart
        rw [emplace, if_neg apart]
        split
        · rw [find]
          by_cases same : key = other
          · simp [same]
          · simp [same, Ne.symm same]
        · rw [find, find, induction rest absent]
          by_cases same : first.1 = other
          · rw [if_pos same, if_pos same, if_neg (fun equal => apart (same.trans equal))]
          · rw [if_neg same, if_neg same]

theorem length_emplace (absent : find key table = none) :
    (emplace key value table).length = table.length + 1 := by
  induction table with
  | nil => rfl
  | cons first table induction =>
      rw [find] at absent
      split at absent
      · cases absent
      · rename_i apart
        rw [emplace, if_neg apart]
        split
        · rfl
        · rw [List.length_cons, induction absent, List.length_cons]

theorem emplace_last (beyond : ∀ entry ∈ table, entry.1 < key) :
    emplace key value table = table ++ [(key, value)] := by
  induction table with
  | nil => rfl
  | cons first table induction =>
      have less := beyond first List.mem_cons_self
      rw [emplace, if_neg (not_lt_of_gt less), if_neg (ne_of_lt less), List.cons_append,
        induction fun entry later => beyond entry (List.mem_cons_of_mem _ later)]

theorem fold_emplace {rest : List (κ × α)} (ordered : Ordered (table ++ rest)) :
    rest.foldl (fun table entry => emplace entry.1 entry.2 table) table = table ++ rest := by
  induction rest generalizing table with
  | nil => exact (List.append_nil table).symm
  | cons entry rest induction =>
      have beyond : ∀ entry' ∈ table, entry'.1 < entry.1 := by
        intro entry' member
        unfold Ordered at ordered
        rw [List.map_append, List.pairwise_append] at ordered
        apply ordered.2.2
        · exact List.mem_map_of_mem member
        · exact List.mem_cons_self
      have later : Ordered (table ++ [entry] ++ rest) := by
        rw [List.append_assoc]
        exact ordered
      rw [List.foldl_cons, emplace_last beyond, induction later, List.append_assoc,
        List.singleton_append]

theorem key_emplace : other ∈ (emplace key value table).map Prod.fst ↔
    other = key ∨ other ∈ table.map Prod.fst := by
  induction table with
  | nil => simp [emplace]
  | cons first table induction =>
      rw [emplace]
      split
      · simp
      · split
        · rename_i same
          simp only [List.map_cons, List.mem_cons]
          grind
        · rw [List.map_cons, List.mem_cons, induction, List.map_cons, List.mem_cons]
          exact or_left_comm

def build (entries : List (κ × α)) : List (κ × α) :=
  entries.foldl (fun table entry => emplace entry.1 entry.2 table) []

theorem build_append (entries : List (κ × α)) (entry : κ × α) :
    build (entries ++ [entry]) = emplace entry.1 entry.2 (build entries) := by
  unfold build
  rw [List.foldl_append]
  rfl

theorem ordered_build (entries : List (κ × α)) : Ordered (build entries) := by
  induction entries using List.reverseRecOn with
  | nil => exact .nil
  | append_singleton entries entry induction =>
      rw [build_append]
      exact ordered_emplace induction

theorem mem_build {entries : List (κ × α)} (member : entry ∈ build entries) :
    entry ∈ entries := by
  induction entries using List.reverseRecOn with
  | nil => cases member
  | append_singleton entries last induction =>
      rw [build_append] at member
      rw [List.mem_append, List.mem_singleton]
      exact (mem_emplace member).symm.imp_left induction

theorem key_build {entries : List (κ × α)} (member : entry ∈ entries) :
    entry.1 ∈ (build entries).map Prod.fst := by
  induction entries using List.reverseRecOn with
  | nil => cases member
  | append_singleton entries last induction =>
      rw [build_append, key_emplace]
      rcases List.mem_append.mp member with before | here
      · exact .inr (induction before)
      · exact .inl (congrArg Prod.fst (List.mem_singleton.mp here))

theorem Ordered.lt {i j : Nat} {entry' : κ × α} (ordered : Ordered table)
    (at_ : table[i]? = some entry) (at' : table[j]? = some entry') (less : i < j) :
    entry.1 < entry'.1 := by
  obtain ⟨short, rfl⟩ := List.getElem?_eq_some_iff.mp at_
  obtain ⟨short', rfl⟩ := List.getElem?_eq_some_iff.mp at'
  have pairs := List.pairwise_iff_getElem.mp ordered i j (by simpa using short)
    (by simpa using short') less
  simpa using pairs

theorem lt_of_before {i : Nat} (before : i < lowerBound key table)
    (at_ : table[i]? = some entry) : entry.1 < key := by
  obtain ⟨short, rfl⟩ := List.getElem?_eq_some_iff.mp at_
  have below := List.not_of_lt_findIdx before
  simpa using below

theorem le_of_lowerBound (at_ : table[lowerBound key table]? = some entry) :
    key ≤ entry.1 := by
  obtain ⟨short, rfl⟩ := List.getElem?_eq_some_iff.mp at_
  have reached := List.findIdx_getElem (w := short)
  exact of_decide_eq_true reached

/-- The entries before `lower_bound` are those with lower keys. -/
theorem before_iff {i : Nat} (ordered : Ordered table) (at_ : table[i]? = some entry) :
    i < lowerBound key table ↔ entry.1 < key := by
  constructor
  · intro before
    exact lt_of_before before at_
  · intro less
    rcases Nat.lt_or_ge i (lowerBound key table) with before | behind
    · exact before
    · obtain ⟨short, same⟩ := List.getElem?_eq_some_iff.mp at_
      obtain ⟨entry', at'⟩ : ∃ entry', table[lowerBound key table]? = some entry' :=
        ⟨_, List.getElem?_eq_getElem (Nat.lt_of_le_of_lt behind short)⟩
      have above := le_of_lowerBound at'
      rcases Nat.eq_or_lt_of_le behind with same' | further
      · rw [same', at_] at at'
        cases at'
        exact absurd less (not_lt.mpr above)
      · have between := ordered.lt at' at_ further
        exact absurd (less.trans_le above) (not_lt.mpr between.le)

/-- What is at `lower_bound` is the least of the keys that are not below. -/
theorem lowerBound_least (ordered : Ordered table)
    (at_ : table[lowerBound key table]? = some entry) {other : κ × α} (member : other ∈ table)
    (above : key ≤ other.1) : entry.1 ≤ other.1 := by
  obtain ⟨i, at'⟩ := List.mem_iff_getElem?.mp member
  rcases Nat.lt_trichotomy (lowerBound key table) i with behind | same | before
  · exact (ordered.lt at_ at' behind).le
  · rw [same, at'] at at_
    cases at_
    exact le_rfl
  · exact absurd (lt_of_before before at') (not_lt.mpr above)

theorem exists_lowerBound {other : κ × α} (member : other ∈ table) (above : key ≤ other.1) :
    ∃ entry, table[lowerBound key table]? = some entry := by
  have short : lowerBound key table < table.length :=
    List.findIdx_lt_length_of_exists ⟨other, member, decide_eq_true above⟩
  exact ⟨_, List.getElem?_eq_getElem short⟩

theorem mem_erase : entry ∈ erase key table ↔ entry ∈ table ∧ entry.1 ≠ key := by
  unfold erase
  rw [List.mem_filter, decide_eq_true_iff]

theorem ordered_erase (ordered : Ordered table) : Ordered (erase key table) :=
  List.Pairwise.sublist (List.filter_sublist.map Prod.fst) ordered

theorem find_erase :
    find other (erase key table) = if other = key then none else find other table := by
  induction table with
  | nil => simp [erase, find]
  | cons first table induction =>
      have rest : erase key (first :: table) =
          if first.1 ≠ key then first :: erase key table else erase key table := by
        simp [erase, List.filter_cons]
      rw [rest]
      by_cases here : first.1 = key
      · rw [if_neg (not_not.mpr here), induction, find]
        by_cases same : other = key
        · rw [if_pos same, if_pos same]
        · rw [if_neg same, if_neg same, if_neg fun equal => same (equal.symm.trans here)]
      · rw [if_pos here, find, induction, find]
        by_cases same : other = key
        · rw [if_pos same, if_neg fun equal => here (equal.trans same), if_pos same]
        · rw [if_neg same, if_neg same]

theorem keys_assign : (assign key value table).map Prod.fst = table.map Prod.fst := by
  unfold assign
  rw [List.map_map]
  apply List.map_congr_left
  intro entry _
  simp only [Function.comp_apply]
  split <;> rfl

theorem ordered_assign (ordered : Ordered table) : Ordered (assign key value table) := by
  unfold Ordered
  rw [keys_assign]
  exact ordered

theorem length_assign : (assign key value table).length = table.length := List.length_map ..

theorem find_assign :
    find other (assign key value table) =
      if other = key then (find key table).map fun _ => value else find other table := by
  induction table with
  | nil => simp [assign, find]
  | cons first table induction =>
      have rest : assign key value (first :: table) =
          (if first.1 = key then (first.1, value) else first) :: assign key value table := rfl
      rw [rest, find, induction, find, find]
      by_cases here : first.1 = key
      · subst here
        by_cases same : other = first.1
        · simp [same]
        · simp [same, Ne.symm same]
      · by_cases same : other = key
        · subst same
          simp [here]
        · simp [here, same]

/-- What lies before `i` is below the key, and what lies from `j` on is above it. -/
theorem search_window (ordered : Ordered table) {i j : Nat} (bound : j ≤ table.length)
    (below : ∀ n (short : n < table.length), n < i → table[n].1 < key)
    (above : ∀ n (short : n < table.length), j ≤ n → key < table[n].1) :
    search table key i j = find key table := by
  have ascending : ∀ m n (long : m < table.length) (short : n < table.length), m < n →
      table[m].1 < table[n].1 := fun m n long short =>
    ordered.lt (List.getElem?_eq_getElem long) (List.getElem?_eq_getElem short)
  fun_induction search table key i j with
  | case1 i j less none =>
      have short : (i + j) / 2 < table.length := by omega
      rw [List.getElem?_eq_getElem short] at none
      cases none
  | case2 i j less entry found =>
      obtain ⟨short, rfl⟩ := List.getElem?_eq_some_iff.mp found
      rename_i same
      symm
      rw [find_iff ordered, ← same]
      exact List.getElem_mem short
  | case3 i j less entry found other smaller induction =>
      obtain ⟨short, rfl⟩ := List.getElem?_eq_some_iff.mp found
      refine induction bound (fun n inside less' => ?_) above
      rcases Nat.lt_or_ge n ((i + j) / 2) with before | from_
      · exact (ascending _ _ _ short before).trans smaller
      · obtain rfl : n = (i + j) / 2 := by omega
        exact smaller
  | case4 i j less entry found other notSmaller induction =>
      obtain ⟨short, rfl⟩ := List.getElem?_eq_some_iff.mp found
      have greater := lt_of_le_of_ne (not_lt.mp notSmaller) (Ne.symm other)
      refine induction (by omega) below (fun n inside from_ => ?_)
      rcases Nat.eq_or_lt_of_le from_ with rfl | behind
      · exact greater
      · exact greater.trans (ascending _ _ _ inside behind)
  | case5 i j empty =>
      symm
      rw [find_none_iff]
      intro member
      obtain ⟨entry, inside, same⟩ := List.mem_map.mp member
      obtain ⟨n, short, rfl⟩ := List.mem_iff_getElem.mp inside
      rcases Nat.lt_or_ge n i with before | from_
      · exact ne_of_lt (below n short before) same
      · exact ne_of_gt (above n short (by omega)) same

theorem search_eq (ordered : Ordered table) :
    search table key 0 table.length = find key table :=
  search_window ordered (Nat.le_refl _) (fun _ _ none => absurd none (Nat.not_lt_zero _))
    (fun _ short beyond => absurd short (by omega))

end Xemmai.Keyed
