import Xemmai.Map

/-!
# The load of a map

A table grows when an insertion finds `v_upper` entries in it and shrinks when a
removal leaves fewer than `v_lower`. The bounds of one rank and the next meet only
where the lower bound of the next is at most the upper bound of the one; a change
between two such ranks leaves room for a removal and for an insertion.
-/

namespace Xemmai

set_option autoImplicit false

variable {α : Type} {null : α} {equals : α → α → Bool} {hash : α → Nat}

namespace Rank

/-- What fills a rank is enough for the next one. -/
def Nested (index : Nat) : Prop := (get (index + 1)).lower ≤ (get index).upper

instance (index : Nat) : Decidable (Nested index) := inferInstanceAs (Decidable (_ ≤ _))

theorem bounds_increase : ∀ index, index < all.length - 1 →
    (get index).upper < (get (index + 1)).upper ∧
    (get index).lower < (get (index + 1)).lower := by
  decide

end Rank

namespace Table

variable {table after : Table α}

theorem put_rank {p : Nat} {entry : MapEntry α} (put : table.put p entry = some after) :
    after.rank = table.rank := by
  simp only [Table.put, Option.bind_eq_bind, Option.bind_eq_some_iff] at put
  obtain ⟨⟨carried, slot, last⟩, ran, set⟩ := put
  cases set
  refine Loop.run_keeps _ (fun state => state.1.rank = table.rank) ?_ _ _ _ rfl ran
  rintro ⟨before, slot, entry⟩ again ⟨between, slot', entry'⟩ same turned
  simp only at same turned ⊢
  split at turned
  · cases turned
    exact same
  · simp only [Option.bind_eq_some_iff] at turned
    obtain ⟨⟨next, gap⟩, -, moved⟩ := turned
    cases moved
    exact same

theorem close_rank {p : Nat} (closed : table.close null p = some after) :
    after.rank = table.rank := by
  simp only [Table.close, Option.bind_eq_bind, Option.bind_eq_some_iff] at closed
  obtain ⟨⟨pulled, slot⟩, ran, same⟩ := closed
  cases same
  refine Loop.run_keeps _ (fun state => state.1.rank = table.rank) ?_ _ _ _ rfl ran
  rintro ⟨before, slot⟩ again ⟨between, slot'⟩ same turned
  simp only at same turned ⊢
  split at turned
  · cases turned
    exact same
  · simp only [Option.bind_eq_some_iff] at turned
    obtain ⟨last, -, moved⟩ := turned
    cases moved
    exact same

theorem rehash_rank {rank : Nat} (rehashed : table.rehash null rank = some after) :
    after.rank = rank := by
  have kept : ∀ (slots : List Nat) (before : Table α),
      slots.foldlM (fun table1 p =>
        let entry := table.entries p
        if entry.gap = 0 then some table1
        else (table1.place entry.hash).bind fun place =>
          table1.put place.1 { entry with gap := place.2 }) before = some after →
      after.rank = before.rank := by
    intro slots
    induction slots with
    | nil =>
      intro before folded
      cases folded
      rfl
    | cons p behind step =>
      intro before folded
      simp only [List.foldlM_cons, Option.bind_eq_bind, Option.bind_eq_some_iff] at folded
      obtain ⟨between, turned, folded⟩ := folded
      rw [step between folded]
      split at turned
      · cases turned
        rfl
      · simp only [Option.bind_eq_some_iff] at turned
        obtain ⟨_, -, put⟩ := turned
        exact put_rank put
  exact kept _ _ rehashed

end Table

namespace TMap

variable {map after : TMap α}

/-- The size is within the bounds of the rank. -/
def Within (map : TMap α) : Prop :=
  (Rank.get map.table.rank).lower ≤ map.size ∧ map.size ≤ (Rank.get map.table.rank).upper

/-- The search of a put ends at an entry without the key. -/
def Misses (equals : α → α → Bool) (hash : α → Nat) (map : TMap α) (key : α) : Prop :=
  ∃ p gap, map.table.findPlace equals (hash key) key = some (p, gap) ∧ map.table.gap p ≠ gap

/-- The search of a removal ends at an entry with the key. -/
def Finds (equals : α → α → Bool) (hash : α → Nat) (map : TMap α) (key : α) : Prop :=
  ∃ p, map.table.find equals hash key = some (some p)

instance (map : TMap α) (key : α) : Decidable (map.Misses equals hash key) :=
  decidable_of_iff
    ((map.table.findPlace equals (hash key) key).any
      (fun (p, gap) => map.table.gap p != gap) = true)
    (by simp [Misses, Option.any_eq_true])

instance (map : TMap α) (key : α) : Decidable (map.Finds equals hash key) :=
  decidable_of_iff ((map.table.find equals hash key).any Option.isSome = true)
    (by simp [Finds, Option.any_eq_true, Option.isSome_iff_exists])

/-- What a call does to the size and the rank. -/
inductive Loads (null : α) (equals : α → α → Bool) (hash : α → Nat) (map after : TMap α) :
    Operation α → Prop
  | keeps {operation : Operation α} (size : after.size = map.size)
      (rank : after.table.rank = map.table.rank) : Loads null equals hash map after operation
  | clears (empty : after = clear null) : Loads null equals hash map after .clear
  | inserts {key value : α} (missing : map.Misses equals hash key)
      (size : after.size = map.size + 1) (room : map.size < (Rank.get map.table.rank).upper)
      (rank : after.table.rank = map.table.rank) :
      Loads null equals hash map after (.put key value)
  | grows {key value : α} (missing : map.Misses equals hash key)
      (size : after.size = map.size + 1) (full : (Rank.get map.table.rank).upper ≤ map.size)
      (larger : map.table.rank + 1 < Rank.all.length)
      (rank : after.table.rank = map.table.rank + 1) :
      Loads null equals hash map after (.put key value)
  | removes {key : α} (found : map.Finds equals hash key) (size : after.size = map.size - 1)
      (enough : (Rank.get map.table.rank).lower ≤ map.size - 1)
      (rank : after.table.rank = map.table.rank) :
      Loads null equals hash map after (.remove key)
  | shrinks {key : α} (found : map.Finds equals hash key) (size : after.size = map.size - 1)
      (few : map.size - 1 < (Rank.get map.table.rank).lower)
      (rank : after.table.rank = map.table.rank - 1) :
      Loads null equals hash map after (.remove key)

theorem loads_of_put {key value : α} {result : Except Error α}
    (put : map.put null equals hash key value = some (result, after)) :
    Loads null equals hash map after (.put key value) := by
  simp only [TMap.put, Option.bind_eq_bind, Option.bind_eq_some_iff] at put
  obtain ⟨⟨p, gap⟩, placed, put⟩ := put
  simp only at put
  split at put
  · cases put
    exact .keeps rfl rfl
  case isFalse other =>
    have missing : map.Misses equals hash key := ⟨p, gap, placed, other⟩
    split at put
    case isTrue full =>
      split at put
      · cases put
        exact .keeps rfl rfl
      case isFalse larger =>
        simp only [Option.bind_eq_some_iff] at put
        obtain ⟨grown, rehashed, ⟨q, gap⟩, -, filled, done, last⟩ := put
        cases last
        refine .grows missing rfl full (Nat.lt_of_not_ge larger) ?_
        exact (Table.put_rank done).trans (Table.rehash_rank rehashed)
    case isFalse room =>
      simp only [Option.bind_eq_some_iff] at put
      obtain ⟨filled, done, last⟩ := put
      cases last
      exact .inserts missing rfl (Nat.lt_of_not_ge room) (Table.put_rank done)

theorem loads_of_remove {key : α} {result : Except Error α}
    (removed : map.remove null equals hash key = some (result, after)) :
    Loads null equals hash map after (.remove key) := by
  simp only [TMap.remove, Option.bind_eq_bind, Option.bind_eq_some_iff] at removed
  obtain ⟨found, searched, removed⟩ := removed
  cases found with
  | none =>
    cases removed
    exact .keeps rfl rfl
  | some p =>
    simp only [Option.bind_eq_some_iff] at removed
    obtain ⟨pulled, closed, removed⟩ := removed
    have same := Table.close_rank closed
    rw [Table.rank_set] at same
    rw [same] at removed
    split at removed
    case isTrue few =>
      simp only [Option.bind_eq_some_iff] at removed
      obtain ⟨shrunk, rehashed, last⟩ := removed
      cases last
      exact .shrinks ⟨p, searched⟩ rfl few (Table.rehash_rank rehashed)
    case isFalse enough =>
      cases removed
      exact .removes ⟨p, searched⟩ rfl (Nat.le_of_not_lt enough) same

theorem loads_of_call {operation : Operation α} {result : Except Error (Answer α)}
    (called : map.call null equals hash operation = some (result, after)) :
    Loads null equals hash map after operation := by
  cases operation with
  | put key value =>
    simp only [TMap.call, Option.bind_eq_bind, Option.bind_eq_some_iff] at called
    obtain ⟨⟨_, between⟩, put, last⟩ := called
    cases last
    exact loads_of_put put
  | remove key =>
    simp only [TMap.call, Option.bind_eq_bind, Option.bind_eq_some_iff] at called
    obtain ⟨⟨_, between⟩, removed, last⟩ := called
    cases last
    exact loads_of_remove removed
  | get key =>
    simp only [TMap.call, TMap.get, Option.bind_eq_bind, Option.bind_eq_some_iff] at called
    obtain ⟨⟨_, between⟩, ⟨found, -, read⟩, last⟩ := called
    cases last
    cases found <;> cases read <;> exact .keeps rfl rfl
  | has key =>
    simp only [TMap.call, TMap.has, Option.bind_eq_bind, Option.bind_eq_some_iff] at called
    obtain ⟨⟨_, between⟩, ⟨found, -, read⟩, last⟩ := called
    cases last
    cases read
    exact .keeps rfl rfl
  | clear =>
    cases called
    exact .clears rfl

/-- A call that changes the rank does so between two that are nested. -/
def Nests (equals : α → α → Bool) (hash : α → Nat) (map : TMap α) : Operation α → Prop
  | .put key _ => map.Misses equals hash key →
      (Rank.get map.table.rank).upper ≤ map.size → Rank.Nested map.table.rank
  | .remove key => map.Finds equals hash key →
      map.size - 1 < (Rank.get map.table.rank).lower → Rank.Nested (map.table.rank - 1)
  | _ => True

instance (map : TMap α) : DecidablePred (map.Nests equals hash)
  | .put key _ => inferInstanceAs (Decidable (map.Misses equals hash key → _ ≤ _ → _))
  | .remove key => inferInstanceAs (Decidable (map.Finds equals hash key → _ < _ → _))
  | .get _ | .has _ | .clear => instDecidableTrue

def Firm (map : TMap α) : Prop := (Rank.get map.table.rank).lower ≤ map.size - 1

def Roomy (map : TMap α) : Prop := map.size < (Rank.get map.table.rank).upper

theorem ranked_below {index : Nat} (few : 0 < (Rank.get index).lower) :
    0 < index ∧ index < Rank.all.length := by
  constructor
  · apply Nat.pos_of_ne_zero
    rintro rfl
    exact absurd few (by decide)
  · by_contra outside
    have default : Rank.get index = Rank.first 11 0 := by
      rw [Rank.get, List.getD_eq_getElem?_getD,
        List.getElem?_eq_none (Nat.le_of_not_lt outside), Option.getD_none]
    rw [default] at few
    exact absurd few (by decide)

theorem within_clear : (clear null).Within := ⟨Nat.zero_le _, Nat.zero_le _⟩

theorem firm_clear : (clear null).Firm := Nat.zero_le _

theorem roomy_clear : (clear null).Roomy := by
  change 0 < (Rank.get 0).upper
  decide

/-- A growth stays within the bounds and is not undone by a removal just where the
ranks are nested. -/
theorem Within.grown_iff (within : map.Within) (size : after.size = map.size + 1)
    (full : (Rank.get map.table.rank).upper ≤ map.size)
    (larger : map.table.rank + 1 < Rank.all.length)
    (rank : after.table.rank = map.table.rank + 1) :
    after.Within ∧ after.Firm ↔ Rank.Nested map.table.rank := by
  have increases := (Rank.bounds_increase map.table.rank (by omega)).1
  have most := within.2
  unfold TMap.Within Firm Rank.Nested
  rw [rank, size]
  omega

/-- A shrink stays within the bounds and is not undone by an insertion just where
the ranks are nested. -/
theorem Within.shrunk_iff (within : map.Within) (size : after.size = map.size - 1)
    (few : map.size - 1 < (Rank.get map.table.rank).lower)
    (rank : after.table.rank = map.table.rank - 1) :
    after.Within ∧ after.Roomy ↔ Rank.Nested (map.table.rank - 1) := by
  obtain ⟨some_, ranked⟩ := ranked_below (Nat.zero_lt_of_lt few)
  have increases := (Rank.bounds_increase (map.table.rank - 1) (by omega)).2
  have least := within.1
  unfold TMap.Within Roomy Rank.Nested
  rw [Nat.sub_add_cancel some_] at increases ⊢
  rw [rank, size]
  omega

/-- A call keeps the bounds where it does not change the rank between two that are
not nested. -/
theorem Within.call (within : map.Within) {operation : Operation α}
    (nests : map.Nests equals hash operation)
    (loads : Loads null equals hash map after operation) : after.Within := by
  have bounds := within
  unfold TMap.Within at bounds
  cases loads with
  | keeps size rank =>
    unfold TMap.Within
    rwa [rank, size]
  | clears empty => exact empty ▸ within_clear
  | inserts missing size room rank =>
    unfold TMap.Within
    rw [rank, size]
    omega
  | grows missing size full larger rank =>
    exact ((within.grown_iff size full larger rank).mpr (nests missing full)).1
  | removes found size enough rank =>
    unfold TMap.Within
    rw [rank, size]
    omega
  | shrinks found size few rank => exact ((within.shrunk_iff size few rank).mpr (nests found few)).1

inductive Change
  | inserted (grew : Bool)
  | removed (shrank : Bool)
  | kept
  deriving DecidableEq, Repr

def change (before after : TMap α) : Operation α → Change
  | .put _ _ =>
    if before.size < after.size then
      .inserted (decide (before.table.rank < after.table.rank))
    else .kept
  | .remove _ =>
    if after.size < before.size then
      .removed (decide (after.table.rank < before.table.rank))
    else .kept
  | _ => .kept

/-- A run of calls that are allowed, with what they change. -/
inductive Run (null : α) (equals : α → α → Bool) (hash : α → Nat)
    (allowed : TMap α → Operation α → Prop) : TMap α → List Change → TMap α → Prop
  | stop (map : TMap α) : Run null equals hash allowed map [] map
  | call {map between after : TMap α} {operation : Operation α}
      {result : Except Error (Answer α)} {changes : List Change} (allows : allowed map operation)
      (called : map.call null equals hash operation = some (result, between))
      (run : Run null equals hash allowed between changes after) :
      Run null equals hash allowed map (change map between operation :: changes) after

variable {allowed : TMap α → Operation α → Prop} {changes behind : List Change}

theorem Run.split (run : Run null equals hash allowed map (changes ++ behind) after) :
    ∃ between, Run null equals hash allowed map changes between ∧
      Run null equals hash allowed between behind after := by
  induction changes generalizing map with
  | nil => exact ⟨map, .stop map, run⟩
  | cons first changes step =>
    cases run with
    | call allows called run =>
      obtain ⟨between, before, rest⟩ := step run
      exact ⟨between, .call allows called before, rest⟩

theorem Run.within (run : Run null equals hash (Nests equals hash) map changes after)
    (within : map.Within) : after.Within := by
  induction run with
  | stop => exact within
  | call nests called _ step => exact step (within.call nests (loads_of_call called))

/-- Where the next removal would not shrink the table none before it does. -/
theorem Firm.call (firm : map.Firm) (within : map.Within) {operation : Operation α}
    (nests : map.Nests equals hash operation)
    (loads : Loads null equals hash map after operation)
    (remains : ∀ shrank, change map after operation ≠ .removed shrank) : after.Firm := by
  have least := firm
  unfold Firm at least
  cases loads with
  | keeps size rank =>
    unfold Firm
    rwa [rank, size]
  | clears empty => exact empty ▸ firm_clear
  | inserts missing size room rank =>
    unfold Firm
    rw [rank, size]
    omega
  | grows missing size full larger rank =>
    exact ((within.grown_iff size full larger rank).mpr (nests missing full)).2
  | removes found size enough rank =>
    rcases Nat.eq_zero_or_pos map.size with none_ | some_
    · unfold Firm
      rw [rank, size]
      omega
    · exact absurd (if_pos (by omega)) (remains _)
  | shrinks found size few rank => omega

theorem Roomy.call (roomy : map.Roomy) (within : map.Within) {operation : Operation α}
    (nests : map.Nests equals hash operation)
    (loads : Loads null equals hash map after operation)
    (remains : ∀ grew, change map after operation ≠ .inserted grew) : after.Roomy := by
  have most := roomy
  unfold Roomy at most
  cases loads with
  | keeps size rank =>
    unfold Roomy
    rwa [rank, size]
  | clears empty => exact empty ▸ roomy_clear
  | inserts missing size room rank => exact absurd (if_pos (by omega)) (remains _)
  | grows missing size full larger rank => omega
  | removes found size enough rank =>
    unfold Roomy
    rw [rank, size]
    omega
  | shrinks found size few rank => exact ((within.shrunk_iff size few rank).mpr (nests found few)).2

theorem Run.firm (run : Run null equals hash (Nests equals hash) map changes after)
    (within : map.Within) (firm : map.Firm)
    (remains : ∀ change ∈ changes, ∀ shrank, change ≠ .removed shrank) : after.Firm := by
  induction run with
  | stop => exact firm
  | call nests called _ step =>
    have loads := loads_of_call called
    refine step (within.call nests loads) ?_ fun change member =>
      remains change (List.mem_cons_of_mem _ member)
    exact firm.call within nests loads (remains _ (List.mem_cons_self ..))

theorem Run.roomy (run : Run null equals hash (Nests equals hash) map changes after)
    (within : map.Within) (roomy : map.Roomy)
    (remains : ∀ change ∈ changes, ∀ grew, change ≠ .inserted grew) : after.Roomy := by
  induction run with
  | stop => exact roomy
  | call nests called _ step =>
    have loads := loads_of_call called
    refine step (within.call nests loads) ?_ fun change member =>
      remains change (List.mem_cons_of_mem _ member)
    exact roomy.call within nests loads (remains _ (List.mem_cons_self ..))

/-- An insertion grows a full table, to a rank where the search missed the key. -/
theorem Loads.inserted {operation : Operation α} {grew : Bool}
    (loads : Loads null equals hash map after operation)
    (inserted : change map after operation = .inserted grew) :
    (grew = false ∧ map.size < (Rank.get map.table.rank).upper) ∨
      (grew = true ∧ (Rank.get map.table.rank).upper ≤ map.size ∧
        after.size = map.size + 1 ∧ map.table.rank + 1 < Rank.all.length ∧
        after.table.rank = map.table.rank + 1 ∧
        ∃ key value, operation = .put key value ∧ map.Misses equals hash key) := by
  cases loads with
  | keeps size rank => cases operation <;> simp [change, size] at inserted
  | clears => cases inserted
  | inserts missing size room rank =>
    simp only [change, rank, Nat.lt_irrefl] at inserted
    split at inserted <;> cases inserted
    exact Or.inl ⟨rfl, room⟩
  | grows missing size full larger rank =>
    simp only [change, rank, Nat.lt_succ_self] at inserted
    split at inserted <;> cases inserted
    exact Or.inr ⟨rfl, full, size, larger, rank, _, _, rfl, missing⟩
  | removes => simp only [change] at inserted; split at inserted <;> cases inserted
  | shrinks => simp only [change] at inserted; split at inserted <;> cases inserted

theorem Loads.removed {operation : Operation α} {shrank : Bool}
    (loads : Loads null equals hash map after operation)
    (removed : change map after operation = .removed shrank) :
    (shrank = false ∧ (Rank.get map.table.rank).lower ≤ map.size - 1) ∨
      (shrank = true ∧ map.size - 1 < (Rank.get map.table.rank).lower ∧
        after.size = map.size - 1 ∧ after.table.rank = map.table.rank - 1 ∧
        ∃ key, operation = .remove key ∧ map.Finds equals hash key) := by
  cases loads with
  | keeps size rank => cases operation <;> simp [change, size] at removed
  | clears => cases removed
  | inserts => simp only [change] at removed; split at removed <;> cases removed
  | grows => simp only [change] at removed; split at removed <;> cases removed
  | removes found size enough rank =>
    simp only [change, rank, Nat.lt_irrefl] at removed
    split at removed <;> cases removed
    exact Or.inl ⟨rfl, enough⟩
  | shrinks found size few rank =>
    have some_ := (ranked_below (Nat.zero_lt_of_lt few)).1
    have smaller : map.table.rank - 1 < map.table.rank := by omega
    simp only [change, rank, smaller] at removed
    split at removed <;> cases removed
    exact Or.inr ⟨rfl, few, size, rank, _, rfl, found⟩

theorem firm_of_grew (within : map.Within) {operation : Operation α}
    (nests : map.Nests equals hash operation)
    (loads : Loads null equals hash map after operation)
    (grew : change map after operation = .inserted true) : after.Firm := by
  rcases loads.inserted grew with ⟨same, -⟩ | ⟨-, full, size, larger, rank, key, value, rfl, missing⟩
  · cases same
  · exact ((within.grown_iff size full larger rank).mpr (nests missing full)).2

theorem roomy_of_shrank (within : map.Within) {operation : Operation α}
    (nests : map.Nests equals hash operation)
    (loads : Loads null equals hash map after operation)
    (shrank : change map after operation = .removed true) : after.Roomy := by
  rcases loads.removed shrank with ⟨same, -⟩ | ⟨-, few, size, rank, key, rfl, found⟩
  · cases same
  · exact ((within.shrunk_iff size few rank).mpr (nests found few)).2

theorem Firm.removed (firm : map.Firm) {operation : Operation α} {shrank : Bool}
    (loads : Loads null equals hash map after operation)
    (removed : change map after operation = .removed shrank) : shrank = false := by
  rcases loads.removed removed with ⟨same, -⟩ | ⟨-, few, -⟩
  · exact same
  · exact absurd firm (Nat.not_le_of_lt few)

theorem Roomy.inserted (roomy : map.Roomy) {operation : Operation α} {grew : Bool}
    (loads : Loads null equals hash map after operation)
    (inserted : change map after operation = .inserted grew) : grew = false := by
  rcases loads.inserted inserted with ⟨same, -⟩ | ⟨-, full, -⟩
  · exact same
  · exact absurd roomy (Nat.not_lt_of_le full)

/-- A run ends within the bounds, and nothing it changes of the rank is undone by
the first removal or insertion that could. -/
structure Steady (changes : List Change) (after : TMap α) : Prop where
  within : after.Within
  grown : ∀ before between behind shrank,
    changes = before ++ .inserted true :: (between ++ .removed shrank :: behind) →
    (∀ change ∈ between, ∀ shrank, change ≠ .removed shrank) → shrank = false
  shrunk : ∀ before between behind grew,
    changes = before ++ .removed true :: (between ++ .inserted grew :: behind) →
    (∀ change ∈ between, ∀ grew, change ≠ .inserted grew) → grew = false

/-- Where every change of the rank is between nested ranks the run is steady. -/
theorem steady_of_nests (within : map.Within)
    (run : Run null equals hash (Nests equals hash) map changes after) :
    Steady changes after where
  within := run.within within
  grown := by
    intro before between behind shrank same remains
    subst same
    obtain ⟨first, earlier, rest⟩ := run.split
    have bounded := earlier.within within
    generalize grew : Change.inserted true = change_ at rest
    cases rest with
    | call nests called rest =>
      have loads := loads_of_call called
      have firm := firm_of_grew bounded nests loads grew.symm
      obtain ⟨last, middle, rest⟩ := rest.split
      have later := middle.firm (bounded.call nests loads) firm remains
      generalize removed : Change.removed shrank = change_ at rest
      cases rest with
      | call nests called rest => exact later.removed (loads_of_call called) removed.symm
  shrunk := by
    intro before between behind grew same remains
    subst same
    obtain ⟨first, earlier, rest⟩ := run.split
    have bounded := earlier.within within
    generalize shrank : Change.removed true = change_ at rest
    cases rest with
    | call nests called rest =>
      have loads := loads_of_call called
      have roomy := roomy_of_shrank bounded nests loads shrank.symm
      obtain ⟨last, middle, rest⟩ := rest.split
      have later := middle.roomy (bounded.call nests loads) roomy remains
      generalize inserted : Change.inserted grew = change_ at rest
      cases rest with
      | call nests called rest => exact later.inserted (loads_of_call called) inserted.symm

/-- What a sequence of calls that are allowed changes, and the map after it. -/
def trace (null : α) (equals : α → α → Bool) (hash : α → Nat)
    (allowed : TMap α → Operation α → Prop) [∀ map, DecidablePred (allowed map)]
    (map : TMap α) : List (Operation α) → Option (List Change × TMap α)
  | [] => some ([], map)
  | operation :: operations => do
    if allowed map operation then
      let (_, between) ← map.call null equals hash operation
      let (changes, after) ← between.trace null equals hash allowed operations
      some (change map between operation :: changes, after)
    else none

theorem run_of_trace [∀ map, DecidablePred (allowed map)] {operations : List (Operation α)}
    (traced : map.trace null equals hash allowed operations = some (changes, after)) :
    Run null equals hash allowed map changes after := by
  induction operations generalizing map changes with
  | nil =>
    cases traced
    exact .stop _
  | cons operation operations step =>
    simp only [trace, Option.bind_eq_bind] at traced
    split at traced
    case isFalse => cases traced
    case isTrue allows =>
      simp only [Option.bind_eq_some_iff] at traced
      obtain ⟨⟨result, between⟩, called, ⟨rest, last⟩, traced, same⟩ := traced
      cases same
      exact .call allows called (step traced)

/-- The sixth of six insertions makes the table grow, and a removal leaves it so. -/
theorem steady_growth : ∃ changes after,
    (start 0).Within ∧
    Run 0 (fun (first second : Nat) => first == second) (fun key => key)
      (Nests (fun first second => first == second) (fun key => key)) (start 0) changes after ∧
    changes = List.replicate 5 (.inserted false) ++ [.inserted true, .removed false] ∧
    Steady changes after := by
  let operations : List (Operation Nat) :=
    (List.range 6).map (fun key => Operation.put key key) ++ [Operation.remove 3]
  have traced : ((start 0).trace 0 (fun (first second : Nat) => first == second)
      (fun key => key) (Nests (fun first second => first == second) (fun key => key))
      operations).map Prod.fst =
      some (List.replicate 5 (Change.inserted false) ++
        [Change.inserted true, Change.removed false]) := by
    decide +kernel
  obtain ⟨⟨changes, after⟩, traced, same⟩ := Option.map_eq_some_iff.mp traced
  have run := run_of_trace traced
  exact ⟨changes, after, within_clear, run, same, steady_of_nests within_clear run⟩

/-- The twelfth of twelve insertions makes the table grow to a rank that it is too
few for; a removal shrinks it and an insertion makes it grow again. -/
theorem unsteady_growth : ∃ changes after,
    Run 0 (fun (first second : Nat) => first == second) (fun key => key) (fun _ _ => True)
      (start 0) changes after ∧ ¬Steady changes after := by
  let operations : List (Operation Nat) :=
    (List.range 12).map (fun key => Operation.put key key) ++
      [Operation.remove 3, Operation.put 3 3]
  let filled : List Change := List.replicate 5 (Change.inserted false)
  have traced : ((start 0).trace 0 (fun (first second : Nat) => first == second)
      (fun key => key) (fun _ _ => True) operations).map Prod.fst =
      some (filled ++ Change.inserted true ::
        (filled ++ [Change.inserted true, Change.removed true, Change.inserted true])) := by
    decide +kernel
  obtain ⟨⟨changes, after⟩, traced, rfl⟩ := Option.map_eq_some_iff.mp traced
  refine ⟨_, after, run_of_trace traced, fun steady => ?_⟩
  have grown := steady.grown (filled ++ Change.inserted true :: filled) []
    [Change.inserted true] true rfl (List.forall_mem_nil _)
  exact absurd grown (by decide)

end TMap

end Xemmai
