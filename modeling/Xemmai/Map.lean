import Mathlib
import Xemmai.Loop
import Xemmai.Circular

/-!
# The map object

`t_map` is a hash table with Robin Hood probing. The gap of an entry is one more
than its distance from its home slot, and zero marks an empty slot; an entry
that has come further displaces one that has come less far, and a removal pulls
the entries behind it back. The table grows and shrinks along a list of ranks.
-/

namespace Xemmai

set_option autoImplicit false

/-- `t_rank`; the slot of a hash is its remainder by the capacity. -/
structure Rank where
  capacity : Nat
  upper : Nat
  lower : Nat
  deriving DecidableEq, Repr

namespace Rank

def first (capacity lower : Nat) : Rank := ⟨capacity, capacity / 2, lower⟩

def of (capacity : Nat) : Rank := ⟨capacity, capacity / 2, capacity / 4⟩

/-- `v_ranks`. -/
def all : List Rank :=
  first 11 0 :: [23, 53, 97, 193, 389, 769,
    1543, 3079, 6151, 12289, 24593, 49157, 98317,
    196613, 393241, 786433, 1572869, 3145739, 6291469, 12582917,
    25165843, 50331653, 100663319, 201326611, 402653189, 805306457, 1610612741].map of

def get (index : Nat) : Rank := all.getD index (first 11 0)

end Rank

structure MapEntry (α : Type) where
  gap : Nat
  hash : Nat
  key : α
  value : α

/-- `t_table`, with the index of its rank. -/
structure Table (α : Type) where
  rank : Nat
  entries : Nat → MapEntry α

structure TMap (α : Type) where
  table : Table α
  size : Nat

namespace Table

variable {α : Type}

def capacity (table : Table α) : Nat := (Rank.get table.rank).capacity

def slot (table : Table α) (hash : Nat) : Nat := hash % table.capacity

/-- `if (++p >= v_end) p = f_entries();` -/
def next (table : Table α) (p : Nat) : Nat := Circular.next table.capacity p

def gap (table : Table α) (p : Nat) : Nat := (table.entries p).gap

def set (table : Table α) (p : Nat) (entry : MapEntry α) : Table α :=
  { table with entries := fun other => if other = p then entry else table.entries other }

def instantiate (null : α) (rank : Nat) : Table α := ⟨rank, fun _ => ⟨0, 0, null, null⟩⟩

def turns (table : Table α) : Nat := table.capacity + 1

/-- `for (; p->v_gap > gap; ++gap) if (++p >= v_end) p = f_entries();` -/
def skip (table : Table α) (hash : Nat) : Option (Nat × Nat) :=
  Loop.run (fun (p, gap) =>
      if table.gap p > gap then some (true, table.next p, gap + 1)
      else some (false, p, gap))
    table.turns (table.slot hash, 1)

section Find

variable (equals : α → α → Bool) (hash : α → Nat)

/-- `f_equals`. -/
def matches_ (entry : MapEntry α) (code : Nat) (key : α) : Bool :=
  entry.hash == code && equals entry.key key

/-- `f_find` of a key. -/
def find (table : Table α) (key : α) : Option (Option Nat) := do
  let code := hash key
  let start ← table.skip code
  let (p, gap) ← Loop.run (fun (p, gap) =>
      if table.gap p = gap && !matches_ equals (table.entries p) code key then
        some (true, table.next p, gap + 1)
      else some (false, p, gap))
    table.turns start
  some (if table.gap p = gap then some p else none)

/-- `f_find` of a hash and a key. -/
def findPlace (table : Table α) (code : Nat) (key : α) : Option (Nat × Nat) := do
  let start ← table.skip code
  Loop.run (fun (p, gap) =>
      if table.gap p ≥ gap && !matches_ equals (table.entries p) code key then
        some (true, table.next p, gap + 1)
      else some (false, p, gap))
    table.turns start

end Find

/-- `do if (++a_p >= v_end) a_p = f_entries(); while (a_p->v_gap >= ++a_gap);` -/
def pass (table : Table α) (p gap : Nat) : Option (Nat × Nat) :=
  Loop.run (fun (p, gap) =>
      let p := table.next p
      let gap := gap + 1
      some (decide (table.gap p ≥ gap), p, gap))
    table.turns (p, gap)

/-- `f_put`: what stands in the slot is carried on to a slot where it has come
further than what stands there. -/
def put (table : Table α) (p : Nat) (entry : MapEntry α) : Option (Table α) := do
  let (table, p, entry) ← Loop.run (fun ((table, p, entry) : Table α × Nat × MapEntry α) =>
      if table.gap p = 0 then some (false, table, p, entry)
      else do
        let carried := table.entries p
        let table := table.set p entry
        let (p, gap) ← table.pass p carried.gap
        some (true, table, p, { carried with gap := gap }))
    table.turns (table, p, entry)
  some (table.set p entry)

/-- `size_t gap = 0; ... while (q->v_gap >= ++gap) if (++q >= v_end) q = entries;` -/
def place (table : Table α) (code : Nat) : Option (Nat × Nat) :=
  Loop.run (fun (q, gap) =>
      let gap := gap + 1
      if table.gap q ≥ gap then some (true, table.next q, gap)
      else some (false, q, gap))
    table.turns (table.slot code, 0)

def rehash (null : α) (table0 : Table α) (rank : Nat) : Option (Table α) :=
  (List.range table0.capacity).foldlM (fun table1 p =>
      let entry := table0.entries p
      if entry.gap = 0 then some table1
      else do
        let (q, gap) ← table1.place entry.hash
        table1.put q { entry with gap := gap })
    (instantiate null rank)

/-- The inner loop of `f_remove`: the last entry of the run of `q`. -/
def last (table : Table α) (q : Nat) : Option Nat := do
  let (q, _) ← Loop.run (fun (q, g) =>
      let r := table.next q
      let g := g + 1
      if table.gap r < g then some (false, q, g)
      else some (true, r, g))
    table.turns (q, table.gap q)
  some q

/-- The outer loop of `f_remove`: the hole at `p` takes the last entry of the run
behind it, which leaves a hole. -/
def close (null : α) (table : Table α) (p : Nat) : Option (Table α) := do
  let (table, _) ← Loop.run (fun ((table, p) : Table α × Nat) =>
      let q := table.next p
      let gap := table.gap q
      if gap ≤ 1 then some (false, table, p)
      else do
        let q ← table.last q
        let entry := table.entries q
        let table := table.set p { entry with gap := gap - 1 }
        let table := table.set q ⟨0, entry.hash, null, null⟩
        some (true, table, q))
    table.turns (table, p)
  some table

end Table

namespace Table

variable {α : Type} {table : Table α}

section Basic

@[simp] theorem capacity_set (table : Table α) (p : Nat) (entry : MapEntry α) :
    (table.set p entry).capacity = table.capacity := rfl

@[simp] theorem slot_set (table : Table α) (p : Nat) (entry : MapEntry α) (code : Nat) :
    (table.set p entry).slot code = table.slot code := rfl

@[simp] theorem next_set (table : Table α) (p : Nat) (entry : MapEntry α) (q : Nat) :
    (table.set p entry).next q = table.next q := rfl

@[simp] theorem turns_set (table : Table α) (p : Nat) (entry : MapEntry α) :
    (table.set p entry).turns = table.turns := rfl

@[simp] theorem rank_set (table : Table α) (p : Nat) (entry : MapEntry α) :
    (table.set p entry).rank = table.rank := rfl

theorem entries_set (table : Table α) (p : Nat) (entry : MapEntry α) (q : Nat) :
    (table.set p entry).entries q = if q = p then entry else table.entries q := rfl

theorem gap_set (table : Table α) (p : Nat) (entry : MapEntry α) (q : Nat) :
    (table.set p entry).gap q = if q = p then entry.gap else table.gap q := by
  simp only [gap, entries_set]
  split <;> rfl

def item (entry : MapEntry α) : Multiset (α × α) :=
  if entry.gap = 0 then 0 else {(entry.key, entry.value)}

def contents (table : Table α) : Multiset (α × α) :=
  ∑ p ∈ Finset.range table.capacity, item (table.entries p)

theorem contents_set {p : Nat} (inside : p < table.capacity) (entry : MapEntry α) :
    (table.set p entry).contents + item (table.entries p) =
      table.contents + item entry := by
  have member : p ∈ Finset.range table.capacity := Finset.mem_range.mpr inside
  have others : ∑ q ∈ (Finset.range table.capacity).erase p,
      item ((table.set p entry).entries q) =
      ∑ q ∈ (Finset.range table.capacity).erase p, item (table.entries q) := by
    apply Finset.sum_congr rfl
    intro q other
    rw [entries_set, if_neg (Finset.ne_of_mem_erase other)]
  simp only [contents, capacity_set]
  rw [← Finset.add_sum_erase _ _ member, ← Finset.add_sum_erase _ _ member, others,
    entries_set, if_pos rfl]
  abel

theorem card_contents (table : Table α) :
    Multiset.card table.contents =
      ((Finset.range table.capacity).filter fun p => table.gap p ≠ 0).card := by
  rw [contents, Multiset.card_sum, Finset.card_filter]
  apply Finset.sum_congr rfl
  intro p _
  simp only [item, gap]
  by_cases blank : (table.entries p).gap = 0 <;> simp [blank]

theorem exists_blank (room : Multiset.card table.contents < table.capacity) :
    ∃ z, z < table.capacity ∧ table.gap z = 0 := by
  by_contra full
  push Not at full
  rw [card_contents, Finset.filter_true_of_mem, Finset.card_range] at room
  · omega
  · intro p member
    exact full p (Finset.mem_range.mp member)

theorem mem_contents {pair : α × α} :
    pair ∈ table.contents ↔ ∃ p, p < table.capacity ∧ table.gap p ≠ 0 ∧
      ((table.entries p).key, (table.entries p).value) = pair := by
  simp only [contents, Multiset.mem_sum, Finset.mem_range]
  constructor
  · rintro ⟨p, inside, member⟩
    simp only [item] at member
    split at member
    case isTrue => simp at member
    case isFalse filled =>
      exact ⟨p, inside, filled, (Multiset.mem_singleton.mp member).symm⟩
  · rintro ⟨p, inside, filled, rfl⟩
    refine ⟨p, inside, ?_⟩
    simp only [item, if_neg (show ¬(table.entries p).gap = 0 from filled)]
    exact Multiset.mem_singleton_self _

theorem contents_split {p : Nat} (inside : p < table.capacity)
    (filled : table.gap p ≠ 0) :
    ∃ rest, table.contents =
        ((table.entries p).key, (table.entries p).value) ::ₘ rest ∧
      ∀ entry, (table.set p entry).contents = item entry + rest := by
  obtain ⟨rest, split⟩ := Multiset.exists_cons_of_mem
    (mem_contents.mpr ⟨p, inside, filled, rfl⟩)
  refine ⟨rest, split, ?_⟩
  intro entry
  have set := contents_set inside entry
  rw [split, item, if_neg (show ¬(table.entries p).gap = 0 from filled),
    ← Multiset.singleton_add, add_assoc, add_comm] at set
  rw [add_left_cancel set, add_comm]

end Basic

/-- The slots are laid out as the probing expects them: a gap is at most one more
than the one before, is one more than the distance from the home slot, and a
hash is that of the key. -/
structure Sound (hash : α → Nat) (table : Table α) : Prop where
  ranked : table.rank < Rank.all.length
  ordered : ∀ p, p < table.capacity → table.gap (table.next p) ≤ table.gap p + 1
  placed : ∀ p, p < table.capacity → table.gap p ≠ 0 →
    Circular.distance table.capacity (table.slot (table.entries p).hash) p + 1 =
      table.gap p
  hashed : ∀ p, p < table.capacity → table.gap p ≠ 0 →
    (table.entries p).hash = hash (table.entries p).key

/-- A walk from the home slot of a hash stands at `p` with the gap that an entry
of this hash has there, and it went past slots with no smaller gaps. -/
structure Stop (table : Table α) (code p gap : Nat) : Prop where
  inside : p < table.capacity
  gap : gap = Circular.distance table.capacity (table.slot code) p + 1
  passed : ∀ q, q < table.capacity →
    Circular.distance table.capacity (table.slot code) q <
      Circular.distance table.capacity (table.slot code) p →
    Circular.distance table.capacity (table.slot code) q + 1 ≤ table.gap q

theorem next_lt {p : Nat} (inside : p < table.capacity) :
    table.next p < table.capacity := Circular.next_lt inside

theorem slot_lt {p : Nat} (inside : p < table.capacity) (code : Nat) :
    table.slot code < table.capacity := Nat.mod_lt _ (by omega)

namespace Stop

variable {code p gap z : Nat}

theorem start (inside : p < table.capacity) : Stop table code (table.slot code) 1 where
  inside := slot_lt inside code
  gap := by simp
  passed := by
    intro q _ nearer
    simp at nearer

theorem blank_ahead (stop : Stop table code p gap) (inside : z < table.capacity)
    (blank : table.gap z = 0) :
    Circular.distance table.capacity (table.slot code) p +
        Circular.distance table.capacity p z =
      Circular.distance table.capacity (table.slot code) z := by
  apply Circular.distance_add (slot_lt inside code) stop.inside inside
  by_contra behind
  have := stop.passed z inside (by omega)
  omega

theorem advance (stop : Stop table code p gap) (reached : gap ≤ table.gap p)
    (inside : z < table.capacity) (blank : table.gap z = 0) :
    Stop table code (table.next p) (gap + 1) ∧
      Circular.distance table.capacity (table.next p) z <
        Circular.distance table.capacity p z := by
  have ahead := stop.blank_ahead inside blank
  have apart : p ≠ z := by
    rintro rfl
    have := stop.gap
    omega
  have step := Circular.distance_next_left stop.inside inside apart
  have home := slot_lt inside code
  have whole := Circular.distance_lt home inside
  have further : Circular.distance table.capacity (table.slot code) (table.next p) =
      Circular.distance table.capacity (table.slot code) p + 1 := by
    apply Circular.distance_next_right home stop.inside
    intro back
    have : Circular.distance table.capacity (Circular.next table.capacity p) z =
        Circular.distance table.capacity (table.slot code) z := by rw [back]
    omega
  refine ⟨⟨next_lt stop.inside, by rw [further, stop.gap], ?_⟩, by
    show Circular.distance table.capacity (Circular.next table.capacity p) z < _
    omega⟩
  intro q within nearer
  rw [further] at nearer
  by_cases here : q = p
  · subst here
    rw [← stop.gap]
    exact reached
  · apply stop.passed q within
    have : Circular.distance table.capacity (table.slot code) q ≠
        Circular.distance table.capacity (table.slot code) p :=
      fun same => here (Circular.distance_injective home within stop.inside same)
    omega

theorem fits (stop : Stop table code p gap) {q : Nat} (within : q < table.capacity)
    (behind : table.next q = p) : gap ≤ table.gap q + 1 := by
  have home := slot_lt within code
  by_cases start : p = table.slot code
  · have := stop.gap
    rw [start, Circular.distance_self] at this
    omega
  · have further := Circular.distance_next_right home within
      (by rw [show Circular.next table.capacity q = p from behind]; exact start)
    rw [show Circular.next table.capacity q = p from behind] at further
    have := stop.passed q within (by omega)
    have := stop.gap
    omega

theorem behind (stop : Stop table code p gap)
    (after : Stop table code (table.next p) (gap + 1)) {q : Nat}
    (within : q < table.capacity)
    (nearer : Circular.distance table.capacity (table.slot code) q <
      Circular.distance table.capacity (table.slot code) (table.next p)) :
    q = p ∨ Circular.distance table.capacity (table.slot code) q <
      Circular.distance table.capacity (table.slot code) p := by
  have := stop.gap
  have := after.gap
  by_cases here : q = p
  · exact .inl here
  · right
    have : Circular.distance table.capacity (table.slot code) q ≠
        Circular.distance table.capacity (table.slot code) p :=
      fun same => here (Circular.distance_injective (slot_lt within code) within
        stop.inside same)
    omega

end Stop

namespace Sound

variable {hash : α → Nat} {p z : Nat}

/-- From its home slot on, no slot before an entry has a smaller gap than the
entry would have there. -/
theorem reach (sound : Sound hash table) (inside : p < table.capacity)
    (filled : table.gap p ≠ 0) :
    Stop table (table.entries p).hash p (table.gap p) := by
  have placed := sound.placed p inside filled
  generalize (table.entries p).hash = code at placed ⊢
  refine ⟨inside, placed.symm, ?_⟩
  have home := slot_lt inside code
  have along : ∀ steps q, q < table.capacity →
      Circular.distance table.capacity (table.slot code) q + steps =
        Circular.distance table.capacity (table.slot code) p →
      Circular.distance table.capacity (table.slot code) q + 1 ≤ table.gap q := by
    intro steps
    induction steps with
    | zero =>
      intro q within same
      obtain rfl := Circular.distance_injective home within inside same
      omega
    | succ steps ih =>
      intro q within behind
      have size := Circular.distance_lt home inside
      have further : Circular.distance table.capacity (table.slot code) (table.next q) =
          Circular.distance table.capacity (table.slot code) q + 1 := by
        apply Circular.distance_next_right home within
        intro back
        have := Circular.distance_last within back
        omega
      have next := ih (table.next q) (next_lt within) (by omega)
      have := sound.ordered q within
      omega
  intro q within nearer
  exact along _ q within (by omega : _ + (Circular.distance table.capacity
    (table.slot code) p - Circular.distance table.capacity (table.slot code) q) = _)

theorem gap_le (sound : Sound hash table) (inside : p < table.capacity) :
    ∀ steps q, q < table.capacity → Circular.distance table.capacity p q = steps →
      table.gap q ≤ table.gap p + steps := by
  intro steps
  induction steps with
  | zero =>
    intro q within here
    obtain rfl : p = q := Circular.distance_injective inside inside within (by simp [here])
    omega
  | succ steps ih =>
    intro q within further
    have back := Circular.previous_lt within
    have forth := Circular.next_previous within
    have apart : Circular.next table.capacity (Circular.previous table.capacity q) ≠ p := by
      rw [forth]
      rintro rfl
      simp at further
    have step := Circular.distance_next_right inside back apart
    rw [forth] at step
    have before := ih _ back (by omega)
    have ordered := sound.ordered _ back
    rw [show table.next (Circular.previous table.capacity q) = q from forth] at ordered
    omega

/-- The slots from one entry to a later one of the same home are of that home. -/
theorem contiguous (sound : Sound hash table) {q r : Nat} (inside : p < table.capacity)
    (within : q < table.capacity) (between : r < table.capacity)
    (filled : table.gap p ≠ 0) (full : table.gap q ≠ 0)
    (same : table.slot (table.entries p).hash = table.slot (table.entries q).hash)
    (later : table.gap p ≤ table.gap q)
    (nearer : Circular.distance table.capacity p r ≤
      Circular.distance table.capacity p q) :
    table.gap r ≠ 0 ∧ table.slot (table.entries r).hash = table.slot (table.entries p).hash := by
  have first := sound.placed p inside filled
  have last := sound.placed q within full
  have reach := sound.reach within full
  have home := slot_lt inside (table.entries p).hash
  rw [← same] at last
  have whole := Circular.distance_lt home within
  have onward := Circular.distance_add home inside within (by omega :
    Circular.distance table.capacity (table.slot (table.entries p).hash) p ≤
      Circular.distance table.capacity (table.slot (table.entries p).hash) q)
  have near : Circular.distance table.capacity (table.slot (table.entries p).hash) p +
      Circular.distance table.capacity p r < table.capacity := by omega
  have joined := Circular.distance_join home inside near
  have above := sound.gap_le inside _ r between rfl
  have below : Circular.distance table.capacity (table.slot (table.entries p).hash) r + 1 ≤
      table.gap r := by
    by_cases end_ : r = q
    · rw [end_]
      omega
    · have different : Circular.distance table.capacity
          (table.slot (table.entries p).hash) r ≠ Circular.distance table.capacity
          (table.slot (table.entries p).hash) q :=
        fun equal => end_ (Circular.distance_injective home between within equal)
      rw [same] at different joined onward ⊢
      exact reach.passed r between (by omega)
  have occupied : table.gap r ≠ 0 := by omega
  have placed := sound.placed r between occupied
  have equal : Circular.distance table.capacity (table.slot (table.entries r).hash) r =
      Circular.distance table.capacity (table.slot (table.entries p).hash) r := by omega
  exact ⟨occupied, Circular.distance_left_injective (slot_lt between _) home equal⟩

end Sound

section Walks

variable {hash : α → Nat} {z : Nat}

/-- A loop that walks on past slots while they have no smaller gaps stops where
its test fails, and what it has found behind it holds there. -/
theorem walk_total (again : Nat → Nat → Bool)
    (reaches : ∀ p gap, again p gap = true → gap ≤ table.gap p) {code p gap : Nat}
    (holds : Nat → Nat → Prop)
    (next : ∀ p gap, Stop table code p gap → Stop table code (table.next p) (gap + 1) →
      holds p gap → again p gap = true → holds (table.next p) (gap + 1))
    (start : Stop table code p gap) (first : holds p gap)
    (inside : z < table.capacity) (blank : table.gap z = 0) :
    ∃ p' gap', Loop.run (fun (p, gap) =>
        if again p gap then some (true, table.next p, gap + 1)
        else some (false, p, gap)) table.turns (p, gap) = some (p', gap') ∧
      Stop table code p' gap' ∧ holds p' gap' ∧ again p' gap' = false := by
  obtain ⟨⟨p', gap'⟩, found, done⟩ := Loop.run_total
    (fun (p, gap) =>
      if again p gap then some (true, table.next p, gap + 1) else some (false, p, gap))
    (fun state : Nat × Nat => Stop table code state.1 state.2 ∧ holds state.1 state.2)
    (fun state : Nat × Nat => Stop table code state.1 state.2 ∧ holds state.1 state.2 ∧
      again state.1 state.2 = false)
    (fun state => Circular.distance table.capacity state.1 z)
    (by
      rintro ⟨p, gap⟩ ⟨stop, held⟩
      cases test : again p gap with
      | true =>
        obtain ⟨after, nearer⟩ := stop.advance (reaches p gap test) inside blank
        exact ⟨true, (table.next p, gap + 1), by simp [test],
          fun _ => ⟨⟨after, next p gap stop after held test⟩, nearer⟩, nofun⟩
      | false =>
        exact ⟨false, (p, gap), by simp [test], nofun, fun _ => ⟨stop, held, test⟩⟩)
    table.turns (p, gap) ⟨start, first⟩
    (Nat.lt_succ_of_lt (Circular.distance_lt start.inside inside))
  exact ⟨p', gap', found, done⟩

/-- The slots behind the walk have larger gaps than the entry would have. -/
def Strict (table : Table α) (code p : Nat) : Prop :=
  ∀ q, q < table.capacity →
    Circular.distance table.capacity (table.slot code) q <
      Circular.distance table.capacity (table.slot code) p →
    Circular.distance table.capacity (table.slot code) q + 1 < table.gap q

theorem skip_total (code : Nat) (inside : z < table.capacity) (blank : table.gap z = 0) :
    ∃ p gap, table.skip code = some (p, gap) ∧ Stop table code p gap ∧
      Strict table code p ∧ table.gap p ≤ gap := by
  obtain ⟨p, gap, found, stop, strict, last⟩ := walk_total
    (fun p gap => decide (table.gap p > gap))
    (by
      intro p gap test
      have := of_decide_eq_true test
      omega)
    (fun p _ => Strict table code p)
    (by
      intro p gap stop after strict test q within nearer
      have test := of_decide_eq_true test
      rcases stop.behind after within nearer with rfl | before
      · rw [← stop.gap]
        exact test
      · exact strict q within before)
    (Stop.start inside) (by intro q _ nearer; simp at nearer) inside blank
  simp only [decide_eq_true_eq] at found
  have last := of_decide_eq_false last
  exact ⟨p, gap, found, stop, strict, by omega⟩

variable (equals : α → α → Bool)

def Missed (table : Table α) (code : Nat) (key : α) (p : Nat) : Prop :=
  ∀ q, q < table.capacity →
    Circular.distance table.capacity (table.slot code) q <
      Circular.distance table.capacity (table.slot code) p →
    matches_ equals (table.entries q) code key = false

/-- Where a search for a key ends: at its entry, or at the first slot with a
smaller gap than an entry with the hash would have there. -/
structure Searched (table : Table α) (code : Nat) (key : α) (p gap : Nat) : Prop where
  stop : Stop table code p gap
  missed : Missed equals table code key p
  ended : table.gap p ≤ gap
  found : table.gap p = gap → matches_ equals (table.entries p) code key = true

theorem missed_of_strict (sound : Sound hash table) {code p : Nat} (key : α)
    (strict : Strict table code p) : Missed equals table code key p := by
  intro q within nearer
  have larger := strict q within nearer
  have placed := sound.placed q within (by omega)
  have other : (table.entries q).hash ≠ code := by
    intro same
    rw [same] at placed
    omega
  simp [matches_, other]

/-- The second loop of either search, with a test that amounts to the gap being
the one an entry would have there. -/
theorem search_total (sound : Sound hash table) (test : Nat → Nat → Bool) {code : Nat}
    (key : α)
    (reaches : ∀ p gap, test p gap = true → gap ≤ table.gap p)
    (tests : ∀ p gap, table.gap p = gap → test p gap = true)
    (inside : z < table.capacity) (blank : table.gap z = 0) {p gap : Nat}
    (stop : Stop table code p gap) (strict : Strict table code p)
    (ended : table.gap p ≤ gap) :
    ∃ p' gap', Loop.run (fun (p, gap) =>
        if test p gap && !matches_ equals (table.entries p) code key then
          some (true, table.next p, gap + 1)
        else some (false, p, gap)) table.turns (p, gap) = some (p', gap') ∧
      Searched equals table code key p' gap' := by
  obtain ⟨p', gap', found, stop, ⟨missed, ended⟩, last⟩ := walk_total
    (fun p gap => test p gap && !matches_ equals (table.entries p) code key)
    (by
      intro p gap again
      simp only [Bool.and_eq_true] at again
      exact reaches p gap again.1)
    (fun p gap => Missed equals table code key p ∧ table.gap p ≤ gap)
    (by
      intro p gap stop after held again
      simp only [Bool.and_eq_true, Bool.not_eq_true'] at again
      refine ⟨?_, ?_⟩
      · intro q within nearer
        rcases stop.behind after within nearer with rfl | before
        · exact again.2
        · exact held.1 q within before
      · have := sound.ordered p stop.inside
        have := held.2
        omega)
    stop ⟨missed_of_strict equals sound key strict, ended⟩ inside blank
  refine ⟨p', gap', found, stop, missed, ended, ?_⟩
  intro same
  simp only [Bool.and_eq_false_iff, Bool.not_eq_false', tests p' gap' same] at last
  rcases last with impossible | found
  · exact absurd impossible (by simp)
  · exact found

theorem find_total (sound : Sound hash table) (key : α)
    (inside : z < table.capacity) (blank : table.gap z = 0) :
    ∃ p gap, table.find equals hash key =
        some (if table.gap p = gap then some p else none) ∧
      Searched equals table (hash key) key p gap := by
  obtain ⟨p, gap, skipped, stop, strict, ended⟩ := skip_total (hash key) inside blank
  obtain ⟨p', gap', found, searched⟩ := search_total equals sound
    (fun p gap => decide (table.gap p = gap)) key
    (fun p gap test => Nat.le_of_eq (of_decide_eq_true test).symm)
    (fun p gap same => decide_eq_true same) inside blank stop strict ended
  refine ⟨p', gap', ?_, searched⟩
  simp only [find, skipped, Option.bind_eq_bind, Option.bind_some, found]

theorem findPlace_total (sound : Sound hash table) (code : Nat) (key : α)
    (inside : z < table.capacity) (blank : table.gap z = 0) :
    ∃ p gap, table.findPlace equals code key = some (p, gap) ∧
      Searched equals table code key p gap := by
  obtain ⟨p, gap, skipped, stop, strict, ended⟩ := skip_total code inside blank
  obtain ⟨p', gap', found, searched⟩ := search_total equals sound
    (fun p gap => decide (table.gap p ≥ gap)) key
    (fun p gap test => of_decide_eq_true test)
    (fun p gap same => decide_eq_true (Nat.le_of_eq same.symm)) inside blank stop strict ended
  refine ⟨p', gap', ?_, searched⟩
  simp only [findPlace, skipped, Option.bind_eq_bind, Option.bind_some, found]

theorem Searched.absent {code p gap : Nat} {key : α}
    (searched : Searched equals table code key p gap) (sound : Sound hash table)
    (other : table.gap p ≠ gap) {q : Nat} (within : q < table.capacity)
    (filled : table.gap q ≠ 0) :
    matches_ equals (table.entries q) code key = false := by
  by_cases same : (table.entries q).hash = code
  · have reach := sound.reach within filled
    rw [same] at reach
    rcases Nat.lt_or_ge
      (Circular.distance table.capacity (table.slot code) q)
      (Circular.distance table.capacity (table.slot code) p) with before | beyond
    · exact searched.missed q within before
    · have ended := searched.ended
      have gap := searched.stop.gap
      rcases Nat.lt_or_ge
        (Circular.distance table.capacity (table.slot code) p)
        (Circular.distance table.capacity (table.slot code) q) with nearer | here
      · have := reach.passed p searched.stop.inside nearer
        omega
      · have equal : q = p := Circular.distance_injective (slot_lt within code) within
          searched.stop.inside (by omega)
        have := reach.gap
        subst equal
        omega
  · simp [matches_, same]

theorem Searched.unique {code p gap p' gap' : Nat} {key : α}
    (first : Searched equals table code key p gap)
    (second : Searched equals table code key p' gap') : p' = p ∧ gap' = gap := by
  have aside : ∀ {p gap p' gap' : Nat}, Searched equals table code key p gap →
      Searched equals table code key p' gap' →
      ¬Circular.distance table.capacity (table.slot code) p <
        Circular.distance table.capacity (table.slot code) p' := by
    intro p gap p' gap' first second before
    have inside := first.stop.inside
    have missed := second.missed p inside before
    have passed := second.stop.passed p inside before
    have here := first.stop.gap
    have ended := first.ended
    rw [first.found (by omega)] at missed
    exact absurd missed (by decide)
  have same := Circular.distance_injective (slot_lt first.stop.inside code)
    second.stop.inside first.stop.inside
    (by have := aside first second; have := aside second first; omega)
  refine ⟨same, ?_⟩
  rw [second.stop.gap, first.stop.gap, same]

end Walks

section Insertion

variable {hash : α → Nat} {z : Nat}

theorem place_total (code : Nat) (inside : z < table.capacity) (blank : table.gap z = 0) :
    ∃ q gap, table.place code = some (q, gap) ∧ Stop table code q gap ∧
      table.gap q < gap := by
  obtain ⟨⟨q, gap⟩, found, stop, smaller⟩ := Loop.run_total
    (fun (q, gap) =>
      let gap := gap + 1
      if table.gap q ≥ gap then some (true, table.next q, gap)
      else some (false, q, gap))
    (fun state : Nat × Nat => Stop table code state.1 (state.2 + 1))
    (fun state : Nat × Nat => Stop table code state.1 state.2 ∧ table.gap state.1 < state.2)
    (fun state => Circular.distance table.capacity state.1 z)
    (by
      rintro ⟨q, gap⟩ stop
      by_cases test : table.gap q ≥ gap + 1
      · obtain ⟨after, nearer⟩ := stop.advance test inside blank
        exact ⟨true, (table.next q, gap + 1), by simp only [if_pos test],
          fun _ => ⟨after, nearer⟩, nofun⟩
      · exact ⟨false, (q, gap + 1), by simp only [if_neg test], nofun,
          fun _ => ⟨stop, Nat.lt_of_not_le test⟩⟩)
    table.turns (table.slot code, 0) (Stop.start inside)
    (Nat.lt_succ_of_lt (Circular.distance_lt (slot_lt inside code) inside))
  exact ⟨q, gap, found, stop, smaller⟩

theorem pass_total {code p gap : Nat} (stop : Stop table code p gap)
    (reached : gap ≤ table.gap p) (inside : z < table.capacity) (blank : table.gap z = 0) :
    ∃ p' gap', table.pass p gap = some (p', gap') ∧ Stop table code p' gap' ∧
      table.gap p' < gap' ∧
      Circular.distance table.capacity p' z < Circular.distance table.capacity p z := by
  obtain ⟨⟨p', gap'⟩, found, done⟩ := Loop.run_total
    (fun (p, gap) =>
      let p := table.next p
      let gap := gap + 1
      some (decide (table.gap p ≥ gap), p, gap))
    (fun state : Nat × Nat => Stop table code state.1 state.2 ∧
      state.2 ≤ table.gap state.1 ∧
      Circular.distance table.capacity state.1 z ≤ Circular.distance table.capacity p z)
    (fun state : Nat × Nat => Stop table code state.1 state.2 ∧
      table.gap state.1 < state.2 ∧
      Circular.distance table.capacity state.1 z < Circular.distance table.capacity p z)
    (fun state => Circular.distance table.capacity state.1 z)
    (by
      rintro ⟨q, gap⟩ ⟨stop, reached, near⟩
      simp only at stop reached near ⊢
      obtain ⟨after, nearer⟩ := stop.advance reached inside blank
      refine ⟨_, _, rfl, ?_, ?_⟩
      · intro again
        exact ⟨⟨after, of_decide_eq_true again,
          Nat.le_of_lt (Nat.lt_of_lt_of_le nearer near)⟩, nearer⟩
      · intro last
        exact ⟨after, Nat.lt_of_not_le (of_decide_eq_false last),
          Nat.lt_of_lt_of_le nearer near⟩)
    table.turns (p, gap) ⟨stop, reached, Nat.le_refl _⟩
    (Nat.lt_succ_of_lt (Circular.distance_lt stop.inside inside))
  exact ⟨p', gap', found, done⟩

/-- The ranks have more than one slot, and there are fewer elements left at the
lower bound of one than slots in the one below. -/
theorem rank_facts : ∀ index, index < Rank.all.length →
    1 < (Rank.get index).capacity ∧
    (Rank.get index).upper < (Rank.get index).capacity ∧
    (Rank.get index).lower ≤ (Rank.get (index - 1)).capacity ∧
    (index = 0 → (Rank.get index).lower = 0) ∧
    (index + 1 < Rank.all.length →
      (Rank.get index).capacity < (Rank.get (index + 1)).capacity) := by
  decide

/-- An entry put where the walk of its hash stops, in front of a smaller gap. -/
theorem Sound.set (sound : Sound hash table) {p : Nat} {entry : MapEntry α}
    (stop : Stop table entry.hash p entry.gap) (smaller : table.gap p < entry.gap)
    (hashed : entry.hash = hash entry.key) : Sound hash (table.set p entry) := by
  have more := (rank_facts table.rank sound.ranked).1
  have alone : ∀ q, q < table.capacity → table.next q ≠ q := fun q within =>
    Circular.next_ne more q within
  refine ⟨sound.ranked, ?_, ?_, ?_⟩
  · intro q within
    have ordered := sound.ordered q within
    simp only [next_set, gap_set]
    by_cases behind : table.next q = p
    · have fits := stop.fits within behind
      have other : q ≠ p := fun same => alone q within (behind.trans same.symm)
      rw [if_pos behind, if_neg other]
      exact fits
    · rw [if_neg behind]
      split
      case isTrue same =>
        subst same
        omega
      case isFalse => exact ordered
  · intro q within filled
    simp only [capacity_set, slot_set, gap_set, entries_set] at filled ⊢
    split
    case isTrue same =>
      subst same
      exact stop.gap.symm
    case isFalse other =>
      rw [if_neg other] at filled
      exact sound.placed q within filled
  · intro q within filled
    simp only [gap_set, entries_set] at filled ⊢
    split
    case isTrue => exact hashed
    case isFalse other =>
      rw [if_neg other] at filled
      exact sound.hashed q within filled

theorem item_filled {entry : MapEntry α} (filled : entry.gap ≠ 0) :
    item entry = {(entry.key, entry.value)} := if_neg filled

theorem item_blank {entry : MapEntry α} (blank : entry.gap = 0) : item entry = 0 :=
  if_pos blank

/-- A put under way: the entry carried on and the table together hold what the
table held and the entry put, which stays where it was put. -/
structure Putting (hash : α → Nat) (table : Table α) (z p : Nat) (entry : MapEntry α)
    (table' : Table α) (p' : Nat) (entry' : MapEntry α) : Prop where
  sound : Sound hash table'
  rank : table'.rank = table.rank
  stop : Stop table' entry'.hash p' entry'.gap
  smaller : table'.gap p' < entry'.gap
  hashed : entry'.hash = hash entry'.key
  blank : table'.gap z = 0
  contents : (entry'.key, entry'.value) ::ₘ table'.contents =
    (entry.key, entry.value) ::ₘ table.contents
  kept : (p' = p ∧ entry' = entry) ∨
    (table'.entries p = entry ∧
      Circular.distance table.capacity p' z < Circular.distance table.capacity p z)

theorem capacity_of_rank {table' : Table α} (rank : table'.rank = table.rank) :
    table'.capacity = table.capacity := by
  simp only [capacity, rank]

namespace Putting

variable {p p' : Nat} {entry entry' : MapEntry α} {table' : Table α}

theorem contents_set (putting : Putting hash table z p entry table' p' entry') :
    (table'.set p' entry').contents + item (table'.entries p') =
      (entry.key, entry.value) ::ₘ table.contents := by
  have filled : entry'.gap ≠ 0 := by
    have := putting.smaller
    omega
  rw [Table.contents_set putting.stop.inside, item_filled filled, ← putting.contents,
    add_comm, Multiset.singleton_add]

theorem entries_set (putting : Putting hash table z p entry table' p' entry') :
    (table'.set p' entry').entries p = entry := by
  rw [Table.entries_set]
  rcases putting.kept with ⟨same, carried⟩ | ⟨stays, nearer⟩
  · rw [if_pos same.symm, carried]
  · rw [if_neg (by rintro rfl; omega)]
    exact stays

theorem turn (putting : Putting hash table z p entry table' p' entry')
    (inside : z < table.capacity) (filled : table'.gap p' ≠ 0) :
    ∃ p'' gap, (table'.set p' entry').pass p' (table'.entries p').gap = some (p'', gap) ∧
      Putting hash table z p entry (table'.set p' entry') p''
        { table'.entries p' with gap := gap } ∧
      Circular.distance table.capacity p'' z < Circular.distance table.capacity p' z := by
  have same := capacity_of_rank putting.rank
  have within := putting.stop.inside
  have sound := putting.sound.set putting.stop putting.smaller putting.hashed
  have apart : z ≠ p' := by
    rintro rfl
    exact filled putting.blank
  have blank : (table'.set p' entry').gap z = 0 := by
    rw [gap_set, if_neg apart]
    exact putting.blank
  have reach := putting.sound.reach within filled
  have stop : Stop (table'.set p' entry') (table'.entries p').hash p'
      (table'.entries p').gap := by
    refine ⟨within, reach.gap, ?_⟩
    intro q inside nearer
    rw [gap_set, if_neg (by rintro rfl; exact absurd nearer (Nat.lt_irrefl _))]
    exact reach.passed q inside nearer
  obtain ⟨p'', gap, passed, stopped, smaller, nearer⟩ := pass_total stop
    (by
      rw [gap_set, if_pos rfl]
      exact Nat.le_of_lt putting.smaller)
    (by rw [capacity_set, same]; exact inside) blank
  rw [capacity_set, same] at nearer
  refine ⟨p'', gap, passed, ?_, nearer⟩
  refine ⟨sound, putting.rank, stopped, smaller, ?_, blank, ?_, ?_⟩
  · exact putting.sound.hashed p' within filled
  · have contents := putting.contents_set
    rw [item_filled filled, add_comm, Multiset.singleton_add] at contents
    exact contents
  · refine .inr ⟨putting.entries_set, ?_⟩
    rcases putting.kept with ⟨same, -⟩ | ⟨-, further⟩
    · rw [← same]
      exact nearer
    · omega

end Putting

/-- A put adds the entry to what the table holds, and leaves it in its slot. -/
theorem put_total (sound : Sound hash table) {p : Nat} {entry : MapEntry α}
    (stop : Stop table entry.hash p entry.gap) (smaller : table.gap p < entry.gap)
    (hashed : entry.hash = hash entry.key) (inside : z < table.capacity)
    (blank : table.gap z = 0) :
    ∃ after, table.put p entry = some after ∧ Sound hash after ∧
      after.rank = table.rank ∧
      after.contents = (entry.key, entry.value) ::ₘ table.contents ∧
      after.entries p = entry := by
  obtain ⟨⟨table', p', entry'⟩, found, putting, empty⟩ := Loop.run_total
    (fun ((table, p, entry) : Table α × Nat × MapEntry α) =>
      if table.gap p = 0 then some (false, table, p, entry)
      else do
        let carried := table.entries p
        let table := table.set p entry
        let (p, gap) ← table.pass p carried.gap
        some (true, table, p, { carried with gap := gap }))
    (fun state : Table α × Nat × MapEntry α =>
      Putting hash table z p entry state.1 state.2.1 state.2.2)
    (fun state : Table α × Nat × MapEntry α =>
      Putting hash table z p entry state.1 state.2.1 state.2.2 ∧
        state.1.gap state.2.1 = 0)
    (fun state => Circular.distance table.capacity state.2.1 z)
    (by
      rintro ⟨table', p', entry'⟩ putting
      simp only at putting ⊢
      by_cases empty : table'.gap p' = 0
      · exact ⟨false, (table', p', entry'), by rw [if_pos empty], nofun,
          fun _ => ⟨putting, empty⟩⟩
      · obtain ⟨p'', gap, passed, after, nearer⟩ := putting.turn inside empty
        refine ⟨true, (table'.set p' entry', p'', { table'.entries p' with gap := gap }),
          ?_, fun _ => ⟨after, nearer⟩, nofun⟩
        rw [if_neg empty]
        simp only [passed, Option.bind_eq_bind, Option.bind_some])
    table.turns (table, p, entry)
    ⟨sound, rfl, stop, smaller, hashed, blank, rfl, .inl ⟨rfl, rfl⟩⟩
    (Nat.lt_succ_of_lt (Circular.distance_lt stop.inside inside))
  simp only at putting empty
  refine ⟨table'.set p' entry', ?_,
    putting.sound.set putting.stop putting.smaller putting.hashed, putting.rank, ?_,
    putting.entries_set⟩
  · rw [put, found]
    rfl
  · have contents := putting.contents_set
    rw [item_blank empty, add_zero] at contents
    exact contents

theorem Sound.rewrite (sound : Sound hash table) (p : Nat) (value : α) :
    Sound hash (table.set p { table.entries p with value := value }) := by
  have gaps : ∀ q, (table.set p { table.entries p with value := value }).gap q =
      table.gap q := by
    intro q
    rw [gap_set]
    split
    case isTrue same => rw [same, gap]
    case isFalse => rfl
  refine ⟨sound.ranked, ?_, ?_, ?_⟩
  · intro q within
    rw [gaps, gaps]
    exact sound.ordered q within
  · intro q within filled
    rw [gaps] at filled ⊢
    have placed := sound.placed q within filled
    rw [entries_set]
    split
    case isTrue same =>
      rw [same] at placed ⊢
      exact placed
    case isFalse => exact placed
  · intro q within filled
    rw [gaps] at filled
    have hashed := sound.hashed q within filled
    rw [entries_set]
    split
    case isTrue same =>
      rw [same] at hashed
      exact hashed
    case isFalse => exact hashed

end Insertion

section Removal

variable {hash : α → Nat} {p z : Nat}

/-- The slots are laid out as they should be, but that the slot behind the hole
may have a larger gap than fits an empty slot; it fits the slot before. -/
structure Hole (hash : α → Nat) (table : Table α) (p : Nat) : Prop where
  ranked : table.rank < Rank.all.length
  inside : p < table.capacity
  blank : table.gap p = 0
  ordered : ∀ q, q < table.capacity → q ≠ p → table.gap (table.next q) ≤ table.gap q + 1
  across : ∀ q, q < table.capacity → table.next q = p →
    table.gap (table.next p) ≤ table.gap q + 2
  placed : ∀ q, q < table.capacity → table.gap q ≠ 0 →
    Circular.distance table.capacity (table.slot (table.entries q).hash) q + 1 =
      table.gap q
  hashed : ∀ q, q < table.capacity → table.gap q ≠ 0 →
    (table.entries q).hash = hash (table.entries q).key

theorem next_ne_self (ranked : table.rank < Rank.all.length) {q : Nat}
    (within : q < table.capacity) : table.next q ≠ q :=
  Circular.next_ne (rank_facts table.rank ranked).1 q within

theorem Sound.hole (sound : Sound hash table) (inside : p < table.capacity)
    {entry : MapEntry α} (blank : entry.gap = 0) : Hole hash (table.set p entry) p := by
  refine ⟨sound.ranked, inside, by rw [gap_set, if_pos rfl, blank], ?_, ?_, ?_, ?_⟩
  · intro q within other
    have ordered := sound.ordered q within
    simp only [next_set, gap_set]
    rw [if_neg other]
    split <;> omega
  · intro q within behind
    simp only [next_set] at behind
    have here := sound.ordered p inside
    have before := sound.ordered q within
    rw [behind] at before
    have other : q ≠ p := by
      rintro rfl
      exact next_ne_self sound.ranked inside behind
    simp only [next_set, gap_set]
    rw [if_neg other, if_neg (next_ne_self sound.ranked inside)]
    omega
  · intro q within filled
    simp only [gap_set, entries_set, capacity_set, slot_set] at filled ⊢
    split at filled
    case isTrue => exact absurd blank filled
    case isFalse other =>
      rw [if_neg other, if_neg other]
      exact sound.placed q within filled
  · intro q within filled
    simp only [gap_set, entries_set] at filled ⊢
    split at filled
    case isTrue => exact absurd blank filled
    case isFalse other =>
      rw [if_neg other]
      exact sound.hashed q within filled

theorem Hole.sound (hole : Hole hash table p)
    (settled : table.gap (table.next p) ≤ 1) : Sound hash table := by
  refine ⟨hole.ranked, ?_, hole.placed, hole.hashed⟩
  intro q within
  by_cases here : q = p
  · subst here
    omega
  · exact hole.ordered q within here

/-- The last entry of the run behind a hole. -/
structure Last (table : Table α) (p z q : Nat) : Prop where
  inside : q < table.capacity
  gap : table.gap q =
    table.gap (table.next p) + Circular.distance table.capacity (table.next p) q
  ahead : Circular.distance table.capacity (table.next p) q +
      Circular.distance table.capacity q z =
    Circular.distance table.capacity (table.next p) z

theorem last_total (hole : Hole hash table p)
    (pulled : 1 < table.gap (table.next p)) (inside : z < table.capacity)
    (blank : table.gap z = 0) :
    ∃ q, table.last (table.next p) = some q ∧ Last table p z q ∧
      table.gap (table.next q) ≤ table.gap q := by
  obtain ⟨⟨q, g⟩, found, last, ended⟩ := Loop.run_total
    (fun (q, g) =>
      let r := table.next q
      let g := g + 1
      if table.gap r < g then some (false, q, g)
      else some (true, r, g))
    (fun state : Nat × Nat => Last table p z state.1 ∧ state.2 = table.gap state.1)
    (fun state : Nat × Nat => Last table p z state.1 ∧
      table.gap (table.next state.1) ≤ table.gap state.1)
    (fun state => Circular.distance table.capacity state.1 z)
    (by
      rintro ⟨q, g⟩ ⟨last, here⟩
      simp only at last here ⊢
      have within := last.inside
      have gap := last.gap
      have ahead := last.ahead
      by_cases ended : table.gap (table.next q) < g + 1
      · exact ⟨false, (q, g + 1), by rw [if_pos ended], nofun,
          fun _ => ⟨last, by simp only; omega⟩⟩
      · have other : q ≠ p := by
          rintro rfl
          have := hole.blank
          omega
        have ordered := hole.ordered q within other
        have apart : q ≠ z := by
          rintro rfl
          omega
        have nearer := Circular.distance_next_left within inside apart
        have whole := Circular.distance_lt (next_lt hole.inside) inside
        have further : Circular.distance table.capacity (table.next p) (table.next q) =
            Circular.distance table.capacity (table.next p) q + 1 := by
          apply Circular.distance_next_right (next_lt hole.inside) within
          intro back
          have := Circular.distance_last within back
          omega
        change Circular.distance table.capacity (table.next q) z + 1 = _ at nearer
        refine ⟨true, (table.next q, g + 1), by rw [if_neg ended],
          fun _ => ⟨⟨⟨next_lt within, ?_, ?_⟩, ?_⟩, ?_⟩, nofun⟩
        all_goals
          simp only
          omega)
    table.turns (table.next p, table.gap (table.next p))
    ⟨⟨next_lt hole.inside, by simp, by simp⟩, rfl⟩
    (Nat.lt_succ_of_lt (Circular.distance_lt (next_lt hole.inside) inside))
  refine ⟨q, ?_, last, ended⟩
  rw [Table.last, found]
  rfl

def pulled (null : α) (table : Table α) (p q : Nat) : Table α :=
  (table.set p { table.entries q with gap := table.gap (table.next p) - 1 }).set q
    ⟨0, (table.entries q).hash, null, null⟩

theorem gap_pulled (null : α) (q r : Nat) :
    (table.pulled null p q).gap r =
      if r = q then 0 else if r = p then table.gap (table.next p) - 1 else table.gap r := by
  simp only [pulled, gap_set]

theorem Hole.pull (hole : Hole hash table p) (null : α)
    (more : 1 < table.gap (table.next p)) {q : Nat} (last : Last table p z q)
    (ended : table.gap (table.next q) ≤ table.gap q) :
    Hole hash (table.pulled null p q) q := by
  have within := last.inside
  have gap := last.gap
  have filled : table.gap q ≠ 0 := by omega
  have other : q ≠ p := by
    rintro rfl
    exact filled hole.blank
  have alone : ∀ r, r < table.capacity → table.next r ≠ r :=
    fun r inside => next_ne_self hole.ranked inside
  refine ⟨hole.ranked, within, by rw [gap_pulled, if_pos rfl], ?_, ?_, ?_, ?_⟩
  · intro r inside elsewhere
    change (table.pulled null p q).gap (table.next r) ≤ _
    rw [gap_pulled, gap_pulled, if_neg elsewhere]
    by_cases here : r = p
    · subst here
      rw [if_pos rfl]
      split_ifs
      · omega
      · omega
      · omega
    · have ordered := hole.ordered r inside here
      rw [if_neg here]
      split_ifs with pulled back
      · omega
      · have := hole.across r inside back
        omega
      · exact ordered
  · intro r inside behind
    change table.next r = q at behind
    change (table.pulled null p q).gap (table.next q) ≤ _
    have elsewhere : r ≠ q := by
      rintro rfl
      exact alone r inside behind
    rw [gap_pulled, gap_pulled, if_neg elsewhere, if_neg (alone q within)]
    by_cases here : r = p
    · subst here
      rw [if_pos rfl]
      subst behind
      split_ifs <;> omega
    · have ordered := hole.ordered r inside here
      rw [behind] at ordered
      rw [if_neg here]
      split_ifs <;> omega
  · intro r inside full
    rw [gap_pulled] at full ⊢
    by_cases elsewhere : r = q
    · rw [if_pos elsewhere] at full
      exact absurd rfl full
    · rw [if_neg elsewhere] at full ⊢
      simp only [pulled, entries_set, capacity_set, slot_set]
      rw [if_neg elsewhere]
      by_cases here : r = p
      · subst here
        rw [if_pos rfl, if_pos rfl]
        have placed := hole.placed q within filled
        have step := Circular.distance_next_left hole.inside within (Ne.symm other)
        change Circular.distance table.capacity (table.next r) q + 1 = _ at step
        have nearer : Circular.distance table.capacity r q ≤
            Circular.distance table.capacity (table.slot (table.entries q).hash) q := by
          omega
        have back := Circular.distance_add_right
          (slot_lt within (table.entries q).hash) hole.inside nearer
        simp only
        omega
      · rw [if_neg here] at full ⊢
        rw [if_neg here]
        exact hole.placed r inside full
  · intro r inside full
    rw [gap_pulled] at full
    by_cases elsewhere : r = q
    · rw [if_pos elsewhere] at full
      exact absurd rfl full
    · rw [if_neg elsewhere] at full
      simp only [pulled, entries_set]
      rw [if_neg elsewhere]
      by_cases here : r = p
      · subst here
        rw [if_pos rfl]
        exact hole.hashed q within filled
      · rw [if_neg here] at full ⊢
        exact hole.hashed r inside full

theorem contents_pulled (hole : Hole hash table p) (null : α)
    (more : 1 < table.gap (table.next p)) {q : Nat} (last : Last table p z q) :
    (table.pulled null p q).contents = table.contents := by
  have filled : (table.entries q).gap ≠ 0 := by
    have := last.gap
    simp only [gap] at *
    omega
  have other : q ≠ p := by
    rintro rfl
    exact filled hole.blank
  have first := contents_set hole.inside
    { table.entries q with gap := table.gap (table.next p) - 1 }
  rw [item_blank hole.blank, add_zero, item_filled (by simp only; omega)] at first
  have second := contents_set (show q < (table.set p { table.entries q with
      gap := table.gap (table.next p) - 1 }).capacity from last.inside)
    ⟨0, (table.entries q).hash, null, null⟩
  rw [entries_set, if_neg other, item_filled filled, item_blank rfl, add_zero, first]
    at second
  exact add_right_cancel second

/-- Pulling the entries back leaves a sound table that holds what it held. -/
theorem close_total (hole : Hole hash table p) (null : α) (inside : z < table.capacity)
    (blank : table.gap z = 0) (other : z ≠ p) :
    ∃ after, table.close null p = some after ∧ Sound hash after ∧
      after.rank = table.rank ∧ after.contents = table.contents := by
  obtain ⟨⟨after, q⟩, found, sound, rank, contents⟩ := Loop.run_total
    (fun ((table, p) : Table α × Nat) =>
      let q := table.next p
      let gap := table.gap q
      if gap ≤ 1 then some (false, table, p)
      else do
        let q ← table.last q
        let entry := table.entries q
        let table := table.set p { entry with gap := gap - 1 }
        let table := table.set q ⟨0, entry.hash, null, null⟩
        some (true, table, q))
    (fun state : Table α × Nat => Hole hash state.1 state.2 ∧ state.1.rank = table.rank ∧
      state.1.contents = table.contents ∧ state.1.gap z = 0 ∧ z ≠ state.2)
    (fun state : Table α × Nat => Sound hash state.1 ∧ state.1.rank = table.rank ∧
      state.1.contents = table.contents)
    (fun state => Circular.distance table.capacity state.2 z)
    (by
      rintro ⟨table', p'⟩ ⟨hole, rank, contents, blank, other⟩
      simp only at hole rank contents blank other ⊢
      have same := capacity_of_rank rank
      rw [← same] at inside ⊢
      by_cases settled : table'.gap (table'.next p') ≤ 1
      · exact ⟨false, (table', p'), by rw [if_pos settled], nofun,
          fun _ => ⟨hole.sound settled, rank, contents⟩⟩
      · have more : 1 < table'.gap (table'.next p') := by omega
        obtain ⟨q, found, last, ended⟩ := last_total hole more inside blank
        have gap := last.gap
        have apart : z ≠ q := by
          rintro rfl
          omega
        refine ⟨true, (table'.pulled null p' q, q), ?_, fun _ => ⟨⟨?_, ?_, ?_, ?_, ?_⟩, ?_⟩,
          nofun⟩
        · rw [if_neg settled]
          simp only [found, Option.bind_eq_bind, Option.bind_some, pulled]
        · exact hole.pull null more last ended
        · exact rank
        · exact (contents_pulled hole null more last).trans contents
        · simp only [gap_pulled]
          rw [if_neg apart, if_neg other]
          exact blank
        · exact apart
        · have step := Circular.distance_next_left hole.inside inside (Ne.symm other)
          have ahead := last.ahead
          change Circular.distance table'.capacity (table'.next p') z + 1 = _ at step
          simp only
          omega)
    table.turns (table, p) ⟨hole, rfl, rfl, blank, other⟩
    (Nat.lt_succ_of_lt (Circular.distance_lt hole.inside inside))
  refine ⟨after, ?_, sound, rank, contents⟩
  rw [close, found]
  rfl

end Removal

section Rehash

variable {hash : α → Nat}

theorem instantiate_sound (null : α) {rank : Nat} (ranked : rank < Rank.all.length) :
    Sound hash (instantiate null rank) where
  ranked := ranked
  ordered := fun _ _ => Nat.zero_le _
  placed := fun _ _ filled => absurd rfl filled
  hashed := fun _ _ filled => absurd rfl filled

theorem contents_instantiate (null : α) (rank : Nat) :
    (instantiate null rank).contents = 0 :=
  Finset.sum_eq_zero fun _ _ => item_blank rfl

/-- The entries of the first slots, put into the fresh table. -/
theorem rehash_prefix (sound : Sound hash table) (null : α) {rank : Nat}
    (ranked : rank < Rank.all.length)
    (room : Multiset.card table.contents < (Rank.get rank).capacity) :
    ∀ p, p ≤ table.capacity → ∃ after,
      (List.range p).foldlM (fun table1 p =>
        let entry := table.entries p
        if entry.gap = 0 then some table1
        else do
          let (q, gap) ← table1.place entry.hash
          table1.put q { entry with gap := gap }) (instantiate null rank) = some after ∧
      Sound hash after ∧ after.rank = rank ∧
      after.contents = ∑ q ∈ Finset.range p, item (table.entries q) := by
  intro p
  induction p with
  | zero =>
    intro _
    exact ⟨_, rfl, instantiate_sound null ranked, rfl, contents_instantiate null rank⟩
  | succ p ih =>
    intro within
    obtain ⟨table1, found, sound1, rank1, contents⟩ := ih (by omega)
    rw [List.range_succ, List.foldlM_append, found]
    simp only [Option.bind_eq_bind, Option.bind_some, List.foldlM_cons, List.foldlM_nil,
      Option.pure_def, Option.bind_fun_some]
    by_cases blank : (table.entries p).gap = 0
    · refine ⟨table1, if_pos blank, sound1, rank1, ?_⟩
      rw [Finset.sum_range_succ, item_blank blank, add_zero, contents]
    · have some_ : Multiset.card table1.contents ≤ Multiset.card table.contents := by
        apply Multiset.card_le_card
        rw [contents]
        exact Finset.sum_le_sum_of_subset (Finset.range_mono (by omega))
      have free : Multiset.card table1.contents < table1.capacity := by
        simp only [capacity, rank1]
        omega
      obtain ⟨z, inside, empty⟩ := exists_blank free
      obtain ⟨q, gap, place, stop, smaller⟩ := place_total (table.entries p).hash inside empty
      let entry := { table.entries p with gap := gap }
      have hashed : entry.hash = hash entry.key := sound.hashed p (by omega) blank
      obtain ⟨after, put, sound2, rank2, held, -⟩ :=
        put_total sound1 stop smaller hashed inside empty
      refine ⟨after, ?_, sound2, rank2.trans rank1, ?_⟩
      · rw [if_neg blank, place]
        exact put
      · rw [held, contents, Finset.sum_range_succ, item_filled blank, add_comm,
          Multiset.singleton_add]

theorem rehash_total (sound : Sound hash table) (null : α) {rank : Nat}
    (ranked : rank < Rank.all.length)
    (room : Multiset.card table.contents < (Rank.get rank).capacity) :
    ∃ after, table.rehash null rank = some after ∧ Sound hash after ∧
      after.rank = rank ∧ after.contents = table.contents :=
  rehash_prefix sound null ranked room table.capacity (Nat.le_refl _)

end Rehash

end Table

namespace TMap

variable {α : Type}

inductive Error
  | keyNotFound
  | cannotGrow
  deriving DecidableEq, Repr

section Operations

variable (null : α) (equals : α → α → Bool) (hash : α → Nat)

def start : TMap α := ⟨.instantiate null 0, 0⟩

def clear : TMap α := ⟨.instantiate null 0, 0⟩

def get (map : TMap α) (key : α) : Option (Except Error α × TMap α) := do
  match ← map.table.find equals hash key with
  | none => some (.error .keyNotFound, map)
  | some p => some (.ok (map.table.entries p).value, map)

def has (map : TMap α) (key : α) : Option (Bool × TMap α) := do
  some ((← map.table.find equals hash key).isSome, map)

def put (map : TMap α) (key value : α) : Option (Except Error α × TMap α) := do
  let table := map.table
  let code := hash key
  let (p, gap) ← table.findPlace equals code key
  if table.gap p = gap then
    let table := table.set p { table.entries p with value := value }
    some (.ok value, { map with table := table })
  else if map.size ≥ (Rank.get table.rank).upper then
    let rank := table.rank + 1
    if rank ≥ Rank.all.length then some (.error .cannotGrow, map)
    else do
      let table ← table.rehash null rank
      let (p, gap) ← table.findPlace equals code key
      let table ← table.put p ⟨gap, code, key, value⟩
      some (.ok (table.entries p).value, ⟨table, map.size + 1⟩)
  else do
    let table ← table.put p ⟨gap, code, key, value⟩
    some (.ok (table.entries p).value, ⟨table, map.size + 1⟩)

def remove (map : TMap α) (key : α) : Option (Except Error α × TMap α) := do
  let table := map.table
  match ← table.find equals hash key with
  | none => some (.error .keyNotFound, map)
  | some p =>
    let entry := table.entries p
    let table ← (table.set p ⟨0, entry.hash, null, null⟩).close null p
    let size := map.size - 1
    if size < (Rank.get table.rank).lower then do
      let table ← table.rehash null (table.rank - 1)
      some (.ok entry.value, ⟨table, size⟩)
    else some (.ok entry.value, ⟨table, size⟩)

end Operations

inductive Operation (α : Type)
  | put (key value : α)
  | remove (key : α)
  | get (key : α)
  | has (key : α)
  | clear
  deriving DecidableEq, Repr

inductive Answer (α : Type)
  | value (value : α)
  | truth (truth : Bool)
  | nothing
  deriving DecidableEq, Repr

/-- What a call gives or throws, and the map after it. -/
def call (null : α) (equals : α → α → Bool) (hash : α → Nat) (map : TMap α) :
    Operation α → Option (Except Error (Answer α) × TMap α)
  | .put key value => do
    let (result, map) ← map.put null equals hash key value
    some (result.map .value, map)
  | .remove key => do
    let (result, map) ← map.remove null equals hash key
    some (result.map .value, map)
  | .get key => do
    let (result, map) ← map.get equals hash key
    some (result.map .value, map)
  | .has key => do
    let (truth, map) ← map.has equals hash key
    some (.ok (.truth truth), map)
  | .clear => some (.ok .nothing, clear null)

/-- Equality of keys is an equivalence, and equal keys have equal hashes. -/
structure Keys (equals : α → α → Bool) (hash : α → Nat) : Prop where
  refl : ∀ key, equals key key = true
  symm : ∀ key other, equals key other = true → equals other key = true
  trans : ∀ key other another, equals key other = true → equals other another = true →
    equals key another = true
  hashes : ∀ key other, equals key other = true → hash key = hash other

section Values

variable (equals : α → α → Bool)

def update (values : α → Option α) (key : α) (value : Option α) : α → Option α :=
  fun other => if equals key other then value else values other

/-- The pairs give the values of a finite map. -/
def Represents (pairs : Multiset (α × α)) (values : α → Option α) : Prop :=
  ∀ key value, values key = some value ↔
    ∃ pair ∈ pairs, equals pair.1 key = true ∧ pair.2 = value

def Absent (pairs : Multiset (α × α)) (key : α) : Prop :=
  ∀ pair ∈ pairs, equals pair.1 key = false

def Distinct (pairs : Multiset (α × α)) : Prop :=
  ∀ first second rest, pairs = first ::ₘ second ::ₘ rest →
    equals first.1 second.1 = false

variable {equals} {hash : α → Nat} {pairs : Multiset (α × α)} {values : α → Option α}

theorem Represents.absent (represents : Represents equals pairs values) {key : α}
    (absent : Absent equals pairs key) : values key = none := by
  cases here : values key with
  | none => rfl
  | some value =>
    obtain ⟨pair, member, same, -⟩ := (represents key value).mp here
    rw [absent pair member] at same
    exact absurd same (by decide)

theorem Represents.insert (keys : Keys equals hash)
    (represents : Represents equals pairs values) {key stored : α}
    (same : equals stored key = true) (absent : Absent equals pairs key) (value : α) :
    Represents equals ((stored, value) ::ₘ pairs) (update equals values key (some value)) := by
  intro other found
  simp only [update, Multiset.mem_cons]
  split
  case isTrue equal =>
    constructor
    · intro here
      cases here
      exact ⟨_, .inl rfl, keys.trans _ _ _ same equal, rfl⟩
    · rintro ⟨pair, rfl | member, matched, rfl⟩
      · rfl
      · have := absent pair member
        rw [keys.trans _ _ _ matched (keys.symm _ _ equal)] at this
        exact absurd this (by decide)
  case isFalse differ =>
    rw [represents other found]
    constructor
    · rintro ⟨pair, member, matched⟩
      exact ⟨pair, .inr member, matched⟩
    · rintro ⟨pair, rfl | member, matched, rfl⟩
      · exact absurd (keys.trans _ _ _ (keys.symm _ _ same) matched) differ
      · exact ⟨pair, member, matched, rfl⟩

theorem Distinct.absent (keys : Keys equals hash) {pair : α × α}
    (distinct : Distinct equals (pair ::ₘ pairs)) {key : α}
    (same : equals pair.1 key = true) : Absent equals pairs key := by
  intro other member
  obtain ⟨rest, rfl⟩ := Multiset.exists_cons_of_mem member
  have differ := distinct pair other rest rfl
  by_contra matched
  rw [Bool.not_eq_false] at matched
  rw [keys.trans _ _ _ same (keys.symm _ _ matched)] at differ
  exact absurd differ (by decide)

theorem Distinct.tail {pair : α × α} (distinct : Distinct equals (pair ::ₘ pairs)) :
    Distinct equals pairs := by
  intro first second rest here
  apply distinct first second (pair ::ₘ rest)
  rw [here, Multiset.cons_swap pair first, Multiset.cons_swap pair second]

theorem Distinct.insert (keys : Keys equals hash) (distinct : Distinct equals pairs)
    {key stored : α} (same : equals stored key = true) (absent : Absent equals pairs key)
    (value : α) : Distinct equals ((stored, value) ::ₘ pairs) := by
  have apart : ∀ pair ∈ pairs, equals stored pair.1 = false := by
    intro pair member
    by_contra matched
    rw [Bool.not_eq_false] at matched
    have := absent pair member
    rw [keys.trans _ _ _ (keys.symm _ _ matched) same] at this
    exact absurd this (by decide)
  intro first second rest here
  have one : (stored, value) ∈ first ::ₘ second ::ₘ rest := by
    rw [← here]
    exact Multiset.mem_cons_self _ _
  simp only [Multiset.mem_cons] at one
  rcases one with rfl | rfl | member
  · have others := (Multiset.cons_inj_right _).mp here
    exact apart second (by rw [others]; exact Multiset.mem_cons_self _ _)
  · rw [Multiset.cons_swap] at here
    have others := (Multiset.cons_inj_right _).mp here
    have differ := apart first (by rw [others]; exact Multiset.mem_cons_self _ _)
    by_contra matched
    rw [Bool.not_eq_false] at matched
    rw [keys.symm _ _ matched] at differ
    exact absurd differ (by decide)
  · obtain ⟨rest, rfl⟩ := Multiset.exists_cons_of_mem member
    rw [Multiset.cons_swap second, Multiset.cons_swap first] at here
    exact distinct first second rest ((Multiset.cons_inj_right _).mp here)

theorem Represents.erase (keys : Keys equals hash) {pair : α × α}
    (represents : Represents equals (pair ::ₘ pairs) values)
    (distinct : Distinct equals (pair ::ₘ pairs)) {key : α}
    (same : equals pair.1 key = true) :
    values key = some pair.2 ∧ Represents equals pairs (update equals values key none) := by
  refine ⟨(represents key pair.2).mpr ⟨pair, Multiset.mem_cons_self _ _, same, rfl⟩, ?_⟩
  intro other found
  simp only [update]
  split
  case isTrue equal =>
    have absent := distinct.absent keys (keys.trans _ _ _ same equal)
    constructor
    · intro here
      cases here
    · rintro ⟨another, member, matched, -⟩
      rw [absent another member] at matched
      exact absurd matched (by decide)
  case isFalse differ =>
    rw [represents other found]
    constructor
    · rintro ⟨another, member, matched, rfl⟩
      rcases Multiset.mem_cons.mp member with rfl | member
      · exact absurd (keys.trans _ _ _ (keys.symm _ _ same) matched) differ
      · exact ⟨another, member, matched, rfl⟩
    · rintro ⟨another, member, matched⟩
      exact ⟨another, Multiset.mem_cons_of_mem member, matched⟩

theorem update_update (values : α → Option α) (key : α) (first second : Option α) :
    update equals (update equals values key first) key second =
      update equals values key second := by
  funext other
  simp only [update]
  split <;> rfl

end Values

/-- The map holds the values. -/
structure Holds (equals : α → α → Bool) (hash : α → Nat) (map : TMap α)
    (values : α → Option α) : Prop where
  sound : map.table.Sound hash
  size : Multiset.card map.table.contents = map.size
  room : map.size < map.table.capacity
  distinct : Distinct equals map.table.contents
  represents : Represents equals map.table.contents values

namespace Holds

variable {equals : α → α → Bool} {hash : α → Nat} {map : TMap α} {values : α → Option α}

theorem clear (null : α) : Holds equals hash (clear null) fun _ => none where
  sound := Table.instantiate_sound null (by decide)
  size := by simp [TMap.clear, Table.contents_instantiate]
  room := by
    change 0 < (Rank.get 0).capacity
    decide
  distinct := by
    intro first second rest here
    rw [TMap.clear, Table.contents_instantiate] at here
    exact absurd here.symm (Multiset.cons_ne_zero)
  represents := by
    intro key value
    simp [TMap.clear, Table.contents_instantiate]

theorem blank (holds : Holds equals hash map values) :
    ∃ z, z < map.table.capacity ∧ map.table.gap z = 0 :=
  Table.exists_blank (by rw [holds.size]; exact holds.room)

theorem matches_iff (holds : Holds equals hash map values) (keys : Keys equals hash)
    {p : Nat} (inside : p < map.table.capacity) (filled : map.table.gap p ≠ 0) (key : α) :
    Table.matches_ equals (map.table.entries p) (hash key) key = true ↔
      equals (map.table.entries p).key key = true := by
  simp only [Table.matches_, Bool.and_eq_true, beq_iff_eq,
    holds.sound.hashed p inside filled]
  exact ⟨fun both => both.2, fun same => ⟨keys.hashes _ _ same, same⟩⟩

/-- What a search has found: the entry with the key, or that there is none. -/
theorem searched (holds : Holds equals hash map values) (keys : Keys equals hash)
    {key : α} {p gap : Nat}
    (searched : Table.Searched equals map.table (hash key) key p gap) :
    if map.table.gap p = gap then
      map.table.gap p ≠ 0 ∧ equals (map.table.entries p).key key = true ∧
      values key = some (map.table.entries p).value
    else Absent equals map.table.contents key := by
  have inside := searched.stop.inside
  split
  case isTrue found =>
    have filled : map.table.gap p ≠ 0 := by
      have := searched.stop.gap
      omega
    have same := (holds.matches_iff keys inside filled key).mp (searched.found found)
    have member := Table.mem_contents.mpr ⟨p, inside, filled, rfl⟩
    exact ⟨filled, same, (holds.represents key _).mpr ⟨_, member, same, rfl⟩⟩
  case isFalse other =>
    intro pair member
    obtain ⟨q, within, filled, rfl⟩ := Table.mem_contents.mp member
    have missed := searched.absent equals holds.sound other within filled
    by_contra matched
    rw [Bool.not_eq_false] at matched
    rw [(holds.matches_iff keys within filled key).mpr matched] at missed
    exact absurd missed (by decide)

theorem find (holds : Holds equals hash map values) (keys : Keys equals hash) (key : α) :
    (∃ p, map.table.find equals hash key = some (some p) ∧ p < map.table.capacity ∧
      map.table.gap p ≠ 0 ∧ equals (map.table.entries p).key key = true ∧
      values key = some (map.table.entries p).value) ∨
    (map.table.find equals hash key = some none ∧
      Absent equals map.table.contents key) := by
  obtain ⟨z, inside, empty⟩ := holds.blank
  obtain ⟨p, gap, found, searched⟩ := Table.find_total equals holds.sound key inside empty
  have outcome := holds.searched keys searched
  split at outcome
  case isTrue same =>
    rw [if_pos same] at found
    exact .inl ⟨p, found, searched.stop.inside, outcome⟩
  case isFalse other =>
    rw [if_neg other] at found
    exact .inr ⟨found, outcome⟩

theorem get (holds : Holds equals hash map values) (keys : Keys equals hash) (key : α) :
    map.get equals hash key =
      some ((values key).elim (.error .keyNotFound) .ok, map) := by
  rcases holds.find keys key with ⟨p, found, -, -, -, value⟩ | ⟨found, absent⟩
  · simp only [TMap.get, found, value, Option.bind_eq_bind, Option.bind_some,
      Option.elim_some]
  · simp only [TMap.get, found, holds.represents.absent absent, Option.bind_eq_bind,
      Option.bind_some, Option.elim_none]

theorem has (holds : Holds equals hash map values) (keys : Keys equals hash) (key : α) :
    map.has equals hash key = some ((values key).isSome, map) := by
  rcases holds.find keys key with ⟨p, found, -, -, -, value⟩ | ⟨found, absent⟩
  · simp only [TMap.has, found, value, Option.bind_eq_bind, Option.bind_some,
      Option.isSome_some]
  · simp only [TMap.has, found, holds.represents.absent absent, Option.bind_eq_bind,
      Option.bind_some, Option.isSome_none]

theorem rewrite (holds : Holds equals hash map values) (keys : Keys equals hash)
    {p : Nat} (inside : p < map.table.capacity) (filled : map.table.gap p ≠ 0) {key : α}
    (same : equals (map.table.entries p).key key = true) (value : α) :
    Holds equals hash
      { map with table := map.table.set p { map.table.entries p with value := value } }
      (update equals values key (some value)) := by
  obtain ⟨rest, split, set⟩ := Table.contents_split inside filled
  have after := set { map.table.entries p with value := value }
  rw [Table.item_filled (by exact filled), Multiset.singleton_add] at after
  have distinct := holds.distinct
  have represents := holds.represents
  rw [split] at distinct represents
  have absent := distinct.absent keys same
  refine ⟨holds.sound.rewrite p value, ?_, holds.room, ?_, ?_⟩
  · have size := holds.size
    simp only [split, after, Multiset.card_cons] at size ⊢
    exact size
  · rw [after]
    exact distinct.tail.insert keys same absent value
  · rw [after, ← update_update values key none]
    exact (represents.erase keys distinct same).2.insert keys same absent value

theorem insert (holds : Holds equals hash map values) (keys : Keys equals hash)
    {key : α} (absent : Absent equals map.table.contents key)
    (free : map.size + 1 < map.table.capacity) {p gap : Nat}
    (searched : Table.Searched equals map.table (hash key) key p gap) (value : α) :
    ∃ table, map.table.put p ⟨gap, hash key, key, value⟩ = some table ∧
      (table.entries p).value = value ∧
      Holds equals hash ⟨table, map.size + 1⟩ (update equals values key (some value)) := by
  obtain ⟨z, inside, empty⟩ := holds.blank
  have smaller : map.table.gap p < gap := by
    have outcome := holds.searched keys searched
    split at outcome
    case isTrue same =>
      rw [holds.represents.absent absent] at outcome
      exact absurd outcome.2.2 (by simp)
    case isFalse other =>
      have := searched.ended
      omega
  let entry : MapEntry α := ⟨gap, hash key, key, value⟩
  have stop : Table.Stop map.table entry.hash p entry.gap := searched.stop
  have hashed : entry.hash = hash entry.key := rfl
  obtain ⟨table, put, sound, rank, contents, kept⟩ :=
    Table.put_total holds.sound stop smaller hashed inside empty
  have capacity := Table.capacity_of_rank rank
  refine ⟨table, put, by rw [kept], sound, ?_, ?_, ?_, ?_⟩
  · simp only [contents, Multiset.card_cons, holds.size]
  · simp only [capacity]
    exact free
  · rw [contents]
    exact holds.distinct.insert keys (keys.refl key) absent value
  · rw [contents]
    exact holds.represents.insert keys (keys.refl key) absent value

theorem rehash (holds : Holds equals hash map values) (null : α) (rank : Nat)
    (ranked : rank < Rank.all.length) (room : map.size < (Rank.get rank).capacity) :
    ∃ table, map.table.rehash null rank = some table ∧ table.rank = rank ∧
      Holds equals hash ⟨table, map.size⟩ values := by
  obtain ⟨table, done, sound, same, contents⟩ :=
    Table.rehash_total holds.sound null ranked (by rw [holds.size]; exact room)
  refine ⟨table, done, same, sound, ?_, ?_, ?_, ?_⟩
  · simp only [contents, holds.size]
  · simp only [Table.capacity, same]
    exact room
  · rw [contents]
    exact holds.distinct
  · rw [contents]
    exact holds.represents

/-- A put changes the value of the key, or there is no larger rank to grow to and
the map stays as it is. -/
theorem put (holds : Holds equals hash map values) (keys : Keys equals hash) (null : α)
    (key value : α) :
    (∃ after, map.put null equals hash key value = some (.ok value, after) ∧
      Holds equals hash after (update equals values key (some value)) ∧
      after.size = if (values key).isSome then map.size else map.size + 1) ∨
    (map.put null equals hash key value = some (.error .cannotGrow, map) ∧
      values key = none ∧ 805306370 ≤ map.size) := by
  obtain ⟨z, inside, empty⟩ := holds.blank
  obtain ⟨p, gap, found, searched⟩ :=
    Table.findPlace_total equals holds.sound (hash key) key inside empty
  have outcome := holds.searched keys searched
  have facts := Table.rank_facts map.table.rank holds.sound.ranked
  by_cases same : map.table.gap p = gap
  · rw [if_pos same] at outcome
    left
    refine ⟨_, ?_, holds.rewrite keys searched.stop.inside outcome.1 outcome.2.1 value, ?_⟩
    · simp only [TMap.put, found, Option.bind_eq_bind, Option.bind_some, if_pos same]
    · rw [outcome.2.2]
      rfl
  · rw [if_neg same] at outcome
    have none_ := holds.represents.absent outcome
    by_cases full : map.size ≥ (Rank.get map.table.rank).upper
    · by_cases last : map.table.rank + 1 ≥ Rank.all.length
      · right
        refine ⟨?_, none_, ?_⟩
        · simp only [TMap.put, found, Option.bind_eq_bind, Option.bind_some, if_neg same,
            if_pos full, if_pos last]
        · have ranked := holds.sound.ranked
          have count : Rank.all.length = 28 := rfl
          have here : map.table.rank = 27 := by omega
          rw [here] at full
          exact full
      · left
        have larger := facts.2.2.2.2 (by omega)
        have room := holds.room
        have capacity : map.table.capacity = (Rank.get map.table.rank).capacity := rfl
        obtain ⟨table, grown, rank, again⟩ :=
          holds.rehash null (map.table.rank + 1) (by omega) (by omega)
        obtain ⟨z, inside, empty⟩ := again.blank
        obtain ⟨p, gap, placed, searched⟩ :=
          Table.findPlace_total equals again.sound (hash key) key inside empty
        have absent : Absent equals table.contents key := by
          have outcome := again.searched keys searched
          split at outcome
          case isTrue =>
            rw [none_] at outcome
            exact absurd outcome.2.2 (by simp)
          case isFalse => exact outcome
        obtain ⟨after, put, value, done⟩ := again.insert keys absent
          (by simp only [Table.capacity, rank]; omega) searched value
        refine ⟨_, ?_, done, ?_⟩
        · simp only at placed put
          simp only [TMap.put, found, Option.bind_eq_bind, Option.bind_some, if_neg same,
            if_pos full, if_neg last, grown, placed, put, value]
        · rw [none_]
          rfl
    · left
      obtain ⟨after, put, value, done⟩ := holds.insert keys outcome
        (by
          have capacity : map.table.capacity = (Rank.get map.table.rank).capacity := rfl
          omega) searched value
      refine ⟨_, ?_, done, ?_⟩
      · simp only [TMap.put, found, Option.bind_eq_bind, Option.bind_some, if_neg same,
          if_neg full, put, value]
      · rw [none_]
        rfl

/-- A remove takes the key out, or does not find it and leaves the map. -/
theorem remove (holds : Holds equals hash map values) (keys : Keys equals hash) (null key : α) :
    match values key with
    | none => map.remove null equals hash key = some (.error .keyNotFound, map)
    | some value => ∃ after, map.remove null equals hash key = some (.ok value, after) ∧
        Holds equals hash after (update equals values key none) ∧
        after.size + 1 = map.size := by
  rcases holds.find keys key with ⟨p, found, inside, filled, same, value⟩ | ⟨found, absent⟩
  · obtain ⟨z, within, empty⟩ := holds.blank
    obtain ⟨rest, split, set⟩ := Table.contents_split inside filled
    let blank : MapEntry α := ⟨0, (map.table.entries p).hash, null, null⟩
    have apart : z ≠ p := by
      rintro rfl
      exact filled empty
    have hole : Table.Hole hash (map.table.set p blank) p := holds.sound.hole inside rfl
    obtain ⟨table, closed, sound, rank, contents⟩ := Table.close_total hole null within
      (by rw [Table.gap_set, if_neg apart]; exact empty) apart
    rw [set blank, Table.item_blank rfl, zero_add] at contents
    have size := holds.size
    rw [split, Multiset.card_cons] at size
    have room := holds.room
    have distinct := holds.distinct
    have represents := holds.represents
    rw [split] at distinct represents
    have fewer : Holds equals hash ⟨table, map.size - 1⟩ (update equals values key none) := by
      refine ⟨sound, ?_, ?_, ?_, ?_⟩
      · simp only [contents]
        omega
      · have capacity := Table.capacity_of_rank rank
        simp only [capacity, Table.capacity_set]
        omega
      · rw [contents]
        exact distinct.tail
      · rw [contents]
        exact (represents.erase keys distinct same).2
    rw [value]
    simp only
    have facts := Table.rank_facts map.table.rank holds.sound.ranked
    have lower : (Rank.get table.rank).lower = (Rank.get map.table.rank).lower := by
      rw [rank, Table.rank_set]
    by_cases few : map.size - 1 < (Rank.get table.rank).lower
    · obtain ⟨shrunk, done, -, kept⟩ := fewer.rehash null (table.rank - 1)
        (by have := sound.ranked; omega)
        (by
          have := facts.2.2.1
          rw [rank, Table.rank_set] at few ⊢
          simp only
          omega)
      refine ⟨_, ?_, kept, by simp only; omega⟩
      simp only at done
      simp only [TMap.remove, found, Option.bind_eq_bind, Option.bind_some]
      rw [closed]
      simp only [Option.bind_some, if_pos few, done]
    · refine ⟨_, ?_, fewer, by simp only; omega⟩
      simp only [TMap.remove, found, Option.bind_eq_bind, Option.bind_some]
      rw [closed]
      simp only [Option.bind_some, if_neg few]
  · rw [holds.represents.absent absent]
    simp only [TMap.remove, found, Option.bind_eq_bind, Option.bind_some]

end Holds

structure Finite (α : Type) where
  values : α → Option α
  count : Nat

/-- What a call may give on a finite map, and what it leaves. Only a put of a new
key may fail for want of room, and only where the last rank is half full. -/
def Specified (equals : α → α → Bool) (before : Finite α) :
    Operation α → Except Error (Answer α) → Finite α → Prop
  | .put key value, result, after =>
    (result = .ok (.value value) ∧
      after = ⟨update equals before.values key (some value),
        if (before.values key).isSome then before.count else before.count + 1⟩) ∨
    (result = .error .cannotGrow ∧ after = before ∧ before.values key = none ∧
      805306370 ≤ before.count)
  | .remove key, result, after =>
    match before.values key with
    | none => result = .error .keyNotFound ∧ after = before
    | some value => result = .ok (.value value) ∧
        after = ⟨update equals before.values key none, before.count - 1⟩
  | .get key, result, after =>
    result = (before.values key).elim (.error .keyNotFound) (fun value => .ok (.value value)) ∧
      after = before
  | .has key, result, after =>
    result = .ok (.truth (before.values key).isSome) ∧ after = before
  | .clear, result, after => result = .ok .nothing ∧ after = ⟨fun _ => none, 0⟩

/-- Every call ends, does what the finite map does, and leaves the map as it was
when it throws. -/
theorem Holds.call {equals : α → α → Bool} {hash : α → Nat} {map : TMap α}
    {values : α → Option α} (holds : Holds equals hash map values)
    (keys : Keys equals hash) (null : α) (operation : Operation α) :
    ∃ result after values', map.call null equals hash operation = some (result, after) ∧
      Specified equals ⟨values, map.size⟩ operation result ⟨values', after.size⟩ ∧
      Holds equals hash after values' ∧
      ∀ error, result = .error error → after = map := by
  cases operation with
  | put key value =>
    rcases holds.put keys null key value with ⟨after, done, kept, size⟩ | ⟨done, none_, full⟩
    · refine ⟨.ok (.value value), after, _, ?_, .inl ⟨rfl, by rw [size]⟩, kept, nofun⟩
      simp only [TMap.call, done, Option.bind_eq_bind, Option.bind_some]
      rfl
    · refine ⟨.error .cannotGrow, map, values, ?_, .inr ⟨rfl, rfl, none_, full⟩, holds,
        fun _ _ => rfl⟩
      simp only [TMap.call, done, Option.bind_eq_bind, Option.bind_some]
      rfl
  | remove key =>
    have removed := holds.remove keys null key
    cases value : values key with
    | none =>
      rw [value] at removed
      refine ⟨.error .keyNotFound, map, values, ?_, ?_, holds, fun _ _ => rfl⟩
      · simp only [TMap.call, removed, Option.bind_eq_bind, Option.bind_some]
        rfl
      · simp only [Specified, value]
        exact ⟨trivial, trivial⟩
    | some found =>
      rw [value] at removed
      obtain ⟨after, done, kept, size⟩ := removed
      refine ⟨.ok (.value found), after, _, ?_, ?_, kept, nofun⟩
      · simp only [TMap.call, done, Option.bind_eq_bind, Option.bind_some]
        rfl
      · simp only [Specified, value, ← size, Nat.add_sub_cancel]
        exact ⟨trivial, trivial⟩
  | get key =>
    have done := holds.get keys key
    cases value : values key with
    | none =>
      rw [value] at done
      refine ⟨.error .keyNotFound, map, values, ?_, ?_, holds, fun _ _ => rfl⟩
      · simp only [TMap.call, done, Option.bind_eq_bind, Option.bind_some]
        rfl
      · simp only [Specified, value]
        exact ⟨rfl, trivial⟩
    | some found =>
      rw [value] at done
      refine ⟨.ok (.value found), map, values, ?_, ?_, holds, nofun⟩
      · simp only [TMap.call, done, Option.bind_eq_bind, Option.bind_some]
        rfl
      · simp only [Specified, value]
        exact ⟨rfl, trivial⟩
  | has key =>
    refine ⟨.ok (.truth (values key).isSome), map, values, ?_, ⟨rfl, rfl⟩, holds, nofun⟩
    simp only [TMap.call, holds.has keys key, Option.bind_eq_bind, Option.bind_some]
  | clear =>
    exact ⟨.ok .nothing, TMap.clear null, fun _ => none, rfl, ⟨rfl, rfl⟩, Holds.clear null,
      nofun⟩

/-- The results of a sequence of calls, and the map after them. -/
def calls (null : α) (equals : α → α → Bool) (hash : α → Nat) (map : TMap α) :
    List (Operation α) → Option (List (Except Error (Answer α)) × TMap α)
  | [] => some ([], map)
  | operation :: operations => do
    let (result, map) ← map.call null equals hash operation
    let (results, map) ← map.calls null equals hash operations
    some (result :: results, map)

/-- The results and the last state of a sequence of calls on a finite map. -/
def SpecifiedAll (equals : α → α → Bool) (before : Finite α) :
    List (Operation α) → List (Except Error (Answer α)) → Finite α → Prop
  | [], results, after => results = [] ∧ after = before
  | operation :: operations, results, after =>
    ∃ result rest between, results = result :: rest ∧
      Specified equals before operation result between ∧
      SpecifiedAll equals between operations rest after

theorem Holds.calls {equals : α → α → Bool} {hash : α → Nat} (keys : Keys equals hash)
    (null : α) (operations : List (Operation α)) :
    ∀ {map : TMap α} {values : α → Option α}, Holds equals hash map values →
      ∃ results after values',
        map.calls null equals hash operations = some (results, after) ∧
        SpecifiedAll equals ⟨values, map.size⟩ operations results ⟨values', after.size⟩ ∧
        Holds equals hash after values' := by
  induction operations with
  | nil =>
    intro map values holds
    exact ⟨[], map, values, rfl, ⟨rfl, rfl⟩, holds⟩
  | cons operation operations ih =>
    intro map values holds
    obtain ⟨result, between, values', done, specified, kept, -⟩ :=
      holds.call keys null operation
    obtain ⟨rest, after, values'', more, specifiedAll, final⟩ := ih kept
    refine ⟨result :: rest, after, values'', ?_, ⟨result, rest, _, rfl, specified,
      specifiedAll⟩, final⟩
    simp only [TMap.calls, done, more, Option.bind_eq_bind, Option.bind_some]

/-- The Robin Hood layout: a gap is one more than the distance from the home slot;
homes come in order along the slots; the entries of one home are contiguous; a
slot is empty; `v_size` counts the slots that are not. -/
structure Invariant (map : TMap α) : Prop where
  gap : ∀ p, p < map.table.capacity → map.table.gap p ≠ 0 →
    map.table.gap p = Circular.distance map.table.capacity
      (map.table.slot (map.table.entries p).hash) p + 1
  ordered : ∀ p, p < map.table.capacity → map.table.gap (map.table.next p) ≠ 0 →
    map.table.gap (map.table.next p) ≤ map.table.gap p + 1
  contiguous : ∀ p q r, p < map.table.capacity → q < map.table.capacity →
    r < map.table.capacity → map.table.gap p ≠ 0 → map.table.gap q ≠ 0 →
    map.table.slot (map.table.entries p).hash = map.table.slot (map.table.entries q).hash →
    map.table.gap p ≤ map.table.gap q →
    Circular.distance map.table.capacity p r ≤ Circular.distance map.table.capacity p q →
    map.table.gap r ≠ 0 ∧ map.table.slot (map.table.entries r).hash =
      map.table.slot (map.table.entries p).hash
  blank : ∃ z, z < map.table.capacity ∧ map.table.gap z = 0
  size : ((Finset.range map.table.capacity).filter fun p => map.table.gap p ≠ 0).card =
    map.size

theorem Holds.invariant {equals : α → α → Bool} {hash : α → Nat} {map : TMap α}
    {values : α → Option α} (holds : Holds equals hash map values) : map.Invariant where
  gap := fun p inside filled => (holds.sound.placed p inside filled).symm
  ordered := fun p inside _ => holds.sound.ordered p inside
  contiguous := fun _ _ _ inside within between filled full same later nearer =>
    holds.sound.contiguous inside within between filled full same later nearer
  blank := holds.blank
  size := by
    rw [← Table.card_contents]
    exact holds.size

/-- Every sequence of calls on an empty map ends with the results of a finite map
and with the layout kept; a call that throws leaves the map as it was; and both
searches end and agree on every key. -/
theorem refines_finite_map (null : α) {equals : α → α → Bool} {hash : α → Nat}
    (keys : Keys equals hash) (operations : List (Operation α)) :
    ∃ results map values,
      (start null).calls null equals hash operations = some (results, map) ∧
      SpecifiedAll equals ⟨fun _ => none, 0⟩ operations results ⟨values, map.size⟩ ∧
      map.Invariant ∧
      (∀ operation, ∃ result after,
        map.call null equals hash operation = some (result, after) ∧
        ∀ error, result = .error error → after = map) ∧
      ∀ key, ∃ p gap, map.table.findPlace equals (hash key) key = some (p, gap) ∧
        map.table.find equals hash key =
          some (if map.table.gap p = gap then some p else none) ∧
        (map.table.gap p = gap → values key = some (map.table.entries p).value) ∧
        (map.table.gap p ≠ gap → values key = none) := by
  obtain ⟨results, map, values, done, specified, holds⟩ :=
    Holds.calls keys null operations (Holds.clear null)
  refine ⟨results, map, values, done, specified, holds.invariant, ?_, ?_⟩
  · intro operation
    obtain ⟨result, after, -, called, -, -, unchanged⟩ := holds.call keys null operation
    exact ⟨result, after, called, unchanged⟩
  · intro key
    obtain ⟨z, inside, empty⟩ := holds.blank
    obtain ⟨p, gap, found, searched⟩ :=
      Table.find_total equals holds.sound key inside empty
    obtain ⟨p', gap', placed, again⟩ :=
      Table.findPlace_total equals holds.sound (hash key) key inside empty
    obtain ⟨rfl, rfl⟩ := searched.unique equals again
    refine ⟨p', gap', placed, found, ?_, ?_⟩
    · intro same
      have outcome := holds.searched keys searched
      rw [if_pos same] at outcome
      exact outcome.2.2
    · intro other
      have outcome := holds.searched keys searched
      rw [if_neg other] at outcome
      exact holds.represents.absent outcome

theorem keys_equal_numbers : Keys (fun (first second : Nat) => first == second)
    (fun key => key % 4) where
  refl := by simp
  symm := by
    intro key other same
    simp only [beq_iff_eq] at same ⊢
    exact same.symm
  trans := by
    intro key other another same equal
    simp only [beq_iff_eq] at same equal ⊢
    exact same.trans equal
  hashes := by
    intro key other same
    simp only [beq_iff_eq] at same
    rw [same]

theorem refines_finite_map_colliding :
    ∃ results map values,
      (start 0).calls 0 (fun (first second : Nat) => first == second) (fun key => key % 4)
        [.put 1 7, .put 5 8, .remove 1, .get 5] = some (results, map) ∧
      SpecifiedAll (fun (first second : Nat) => first == second) ⟨fun _ => none, 0⟩
        [.put 1 7, .put 5 8, .remove 1, .get 5] results ⟨values, map.size⟩ ∧
      map.Invariant := by
  obtain ⟨results, map, values, done, specified, invariant, -⟩ :=
    refines_finite_map 0 keys_equal_numbers [.put 1 7, .put 5 8, .remove 1, .get 5]
  exact ⟨results, map, values, done, specified, invariant⟩

end TMap

end Xemmai
