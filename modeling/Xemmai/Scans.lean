import Xemmai.Snapshots

/-!
# The scans of two snapshots

What the loops of `f_epoch_scan` make of a stack and of what is saved of it: turn by turn,
loop by loop, and for a value stack and a native stack that grow or shrink.
-/

namespace Xemmai.Snapshots

set_option autoImplicit false

/-! ### The loops -/

/-- What a turn makes of the words it reads: what it saves, if anything, and what it
increments and decrements, where these are not null. -/
structure Moves where
  saved : Option Nat
  up : Nat
  down : Nat

namespace Moves

def compared (objects : Objects) (p q : Nat) : Moves :=
  if p = q then ⟨none, 0, 0⟩
  else if objects.fObjectFind p = q then ⟨none, 0, 0⟩
  else ⟨some (objects.fObjectFind p), objects.fObjectFind p, q⟩

def grown (objects : Objects) (p _ : Nat) : Moves :=
  ⟨some (objects.fObjectFind p), objects.fObjectFind p, 0⟩

def shrunk (_ q : Nat) : Moves := ⟨none, 0, q⟩

def ups (moves : List Moves) : List Nat := (moves.map up).filter (· ≠ 0)

def downs (moves : List Moves) : List Nat := (moves.map down).filter (· ≠ 0)

def saves (moves : List Moves) (olds : List Nat) : List Nat :=
  List.zipWith (fun move q => move.saved.getD q) moves olds

theorem ups_append (first second : List Moves) :
    ups (first ++ second) = ups first ++ ups second := by
  rw [ups, List.map_append, List.filter_append]
  rfl

theorem downs_append (first second : List Moves) :
    downs (first ++ second) = downs first ++ downs second := by
  rw [downs, List.map_append, List.filter_append]
  rfl

theorem length_downs_le (moves : List Moves) : (downs moves).length ≤ moves.length := by
  have short := List.length_filter_le (· ≠ 0) (moves.map down)
  rw [List.length_map] at short
  exact short

end Moves

structure Reads where
  copy : Bool
  saved : Bool

namespace Scan

def source (reads : Reads) (scan : Scan) : Nat := if reads.copy then scan.p0 else scan.p1

def take (reads : Reads) (scan : Scan) : Scan :=
  let scan := if reads.copy then scan.takeCopy else scan
  if reads.saved then scan.takeSaved else scan

def store (scan : Scan) : Option Nat → Scan
  | none => scan
  | some p => scan.save p

def move (reads : Reads) (moves : Nat → Nat → Moves) (scan : Scan) : Scan :=
  let turn := moves (scan.buffer.word (scan.source reads)) (scan.buffer.word scan.p1)
  ((((scan.take reads).up turn.up).down turn.down).store turn.saved).next

theorem compare_eq (objects : Objects) :
    compare objects = move ⟨true, true⟩ (Moves.compared objects) := by
  funext scan
  simp only [compare, move, source, take, if_true]
  by_cases same : scan.buffer.word scan.p0 = scan.buffer.word scan.p1
  · rw [if_pos same, Moves.compared, if_pos same]
    rfl
  · rw [if_neg same, Moves.compared, if_neg same]
    by_cases found : objects.fObjectFind (scan.buffer.word scan.p0) = scan.buffer.word scan.p1
    · rw [if_pos found, if_pos found]
      rfl
    · rw [if_neg found, if_neg found]
      rfl

theorem grow_eq (objects : Objects) :
    grow objects = move ⟨true, false⟩ (Moves.grown objects) := by
  funext scan
  rfl

theorem shrink_eq : shrink = move ⟨false, true⟩ Moves.shrunk := by
  funext scan
  rfl

section

variable (reads : Reads) (scan : Scan) (q i : Nat)

@[simp] theorem take_word : (scan.take reads).buffer.word = scan.buffer.word := by
  unfold take
  split <;> split <;> rfl

@[simp] theorem take_kept : (scan.take reads).buffer.kept = scan.buffer.kept := by
  unfold take
  split <;> split <;> rfl

@[simp] theorem take_p0 : (scan.take reads).p0 = scan.p0 + if reads.copy then 1 else 0 := by
  unfold take
  split <;> split <;> rfl

@[simp] theorem take_p1 : (scan.take reads).p1 = scan.p1 := by
  unfold take
  split <;> split <;> rfl

@[simp] theorem take_decrements : (scan.take reads).decrements = scan.decrements := by
  unfold take
  split <;> split <;> rfl

@[simp] theorem take_calls : (scan.take reads).calls = scan.calls := by
  unfold take
  split <;> split <;> rfl

theorem unread_of_read {buffer : Buffer} {j : Nat} (unread : (buffer.read j).unread i = true) :
    i ≠ j ∧ buffer.unread i = true := by
  have updated : Function.update buffer.unread j false i = true := unread
  by_cases same : i = j
  · rw [same, Function.update_self] at updated
    cases updated
  · rw [Function.update_of_ne same] at updated
    exact ⟨same, updated⟩

variable {reads scan i} in
theorem unread_of_take (unread : (scan.take reads).buffer.unread i = true) :
    scan.buffer.unread i = true ∧ (reads.copy = true → i ≠ scan.p0) ∧
      (reads.saved = true → i ≠ scan.p1) := by
  obtain ⟨copy, saved⟩ := reads
  cases copy with
  | true =>
      cases saved with
      | true =>
          obtain ⟨apart, unread⟩ := unread_of_read i unread
          obtain ⟨apart', unread⟩ := unread_of_read i unread
          exact ⟨unread, fun _ => apart', fun _ => apart⟩
      | false =>
          obtain ⟨apart, unread⟩ := unread_of_read i unread
          exact ⟨unread, fun _ => apart, nofun⟩
  | false =>
      cases saved with
      | true =>
          obtain ⟨apart, unread⟩ := unread_of_read i unread
          exact ⟨unread, nofun, fun _ => apart⟩
      | false => exact ⟨unread, nofun, nofun⟩

@[simp] theorem up_buffer : (scan.up q).buffer = scan.buffer := by
  unfold up
  split <;> rfl

@[simp] theorem up_p0 : (scan.up q).p0 = scan.p0 := by
  unfold up
  split <;> rfl

@[simp] theorem up_p1 : (scan.up q).p1 = scan.p1 := by
  unfold up
  split <;> rfl

@[simp] theorem up_decrements : (scan.up q).decrements = scan.decrements := by
  unfold up
  split <;> rfl

theorem up_calls : (scan.up q).calls = scan.calls ++ ([q].filter (· ≠ 0)).map Call.increment := by
  unfold up
  by_cases null : q = 0
  · rw [if_pos null]
    simp [null]
  · rw [if_neg null]
    simp [null]

@[simp] theorem down_p0 : (scan.down q).p0 = scan.p0 := by
  unfold down
  split <;> rfl

@[simp] theorem down_p1 : (scan.down q).p1 = scan.p1 := by
  unfold down
  split <;> rfl

@[simp] theorem down_calls : (scan.down q).calls = scan.calls := by
  unfold down
  split <;> rfl

theorem down_decrements :
    (scan.down q).decrements = scan.decrements + ([q].filter (· ≠ 0)).length := by
  unfold down
  by_cases null : q = 0
  · rw [if_pos null]
    simp [null]
  · rw [if_neg null]
    simp [null]

theorem down_word (away : i < scan.decrements ∨ (scan.down q).decrements ≤ i) :
    (scan.down q).buffer.word i = scan.buffer.word i := by
  unfold down at away ⊢
  by_cases null : q = 0
  · rw [if_pos null]
  · rw [if_neg null] at away ⊢
    apply Function.update_of_ne
    have bound : scan.decrements + 1 ≤ i ∨ i < scan.decrements := away.symm
    omega

theorem down_pending :
    slice (scan.down q).buffer.word scan.decrements ([q].filter (· ≠ 0)).length =
      [q].filter (· ≠ 0) := by
  unfold down
  by_cases null : q = 0
  · simp [null, slice]
  · rw [if_neg null]
    have kept : [q].filter (· ≠ 0) = [q] := by simp [null]
    rw [kept]
    change [Function.update scan.buffer.word scan.decrements q scan.decrements] = [q]
    rw [Function.update_self]

theorem down_kept (read : scan.buffer.unread scan.decrements = false) :
    (scan.down q).buffer.kept = scan.buffer.kept := by
  unfold down
  split
  · rfl
  · simp [Buffer.write, read]

variable {scan q i} in
theorem unread_of_down (unread : (scan.down q).buffer.unread i = true) :
    scan.decrements ≤ i ∧ i < (scan.down q).decrements ∨ scan.buffer.unread i = true := by
  unfold down at unread ⊢
  by_cases null : q = 0
  · rw [if_pos null] at unread
    exact .inr unread
  · rw [if_neg null] at unread ⊢
    by_cases same : i = scan.decrements
    · subst same
      exact .inl ⟨Nat.le_refl _, Nat.lt_succ_self _⟩
    · have other : Function.update scan.buffer.unread scan.decrements true i = true := unread
      rw [Function.update_of_ne same] at other
      exact .inr other

variable (saved : Option Nat)

@[simp] theorem store_p0 : (scan.store saved).p0 = scan.p0 := by cases saved <;> rfl

@[simp] theorem store_p1 : (scan.store saved).p1 = scan.p1 := by cases saved <;> rfl

@[simp] theorem store_decrements : (scan.store saved).decrements = scan.decrements := by
  cases saved <;> rfl

@[simp] theorem store_calls : (scan.store saved).calls = scan.calls := by cases saved <;> rfl

theorem store_word (away : i ≠ scan.p1) :
    (scan.store saved).buffer.word i = scan.buffer.word i := by
  cases saved with
  | none => rfl
  | some p => exact Function.update_of_ne away _ _

theorem store_saved :
    (scan.store saved).buffer.word scan.p1 = saved.getD (scan.buffer.word scan.p1) := by
  cases saved with
  | none => rfl
  | some p => exact Function.update_self _ _ _

theorem store_kept (read : scan.buffer.unread scan.p1 = false) :
    (scan.store saved).buffer.kept = scan.buffer.kept := by
  cases saved with
  | none => rfl
  | some p => simp [store, save, Buffer.write, read]

variable {scan i saved} in
theorem unread_of_store (unread : (scan.store saved).buffer.unread i = true) :
    i = scan.p1 ∨ scan.buffer.unread i = true := by
  cases saved with
  | none => exact .inr unread
  | some p =>
      by_cases same : i = scan.p1
      · exact .inl same
      · have other : Function.update scan.buffer.unread scan.p1 true i = true := unread
        rw [Function.update_of_ne same] at other
        exact .inr other

def counted (scan : Scan) (reads : Reads) (turn : Moves) : Scan :=
  ((scan.take reads).up turn.up).down turn.down

variable (turn : Moves)

@[simp] theorem counted_p0 : (scan.counted reads turn).p0 = (scan.take reads).p0 := by
  simp only [counted, down_p0, up_p0]

@[simp] theorem counted_p1 : (scan.counted reads turn).p1 = scan.p1 := by
  simp only [counted, down_p1, up_p1, take_p1]

theorem counted_decrements : (scan.counted reads turn).decrements =
    scan.decrements + (Moves.downs [turn]).length := by
  rw [counted, down_decrements, up_decrements, take_decrements]
  rfl

theorem counted_calls : (scan.counted reads turn).calls =
    scan.calls ++ (Moves.ups [turn]).map Call.increment := by
  rw [counted, down_calls, up_calls, take_calls]
  rfl

theorem counted_pending :
    slice (scan.counted reads turn).buffer.word scan.decrements (Moves.downs [turn]).length =
      Moves.downs [turn] := by
  have pending := ((scan.take reads).up turn.up).down_pending turn.down
  rw [up_decrements, take_decrements] at pending
  exact pending

theorem counted_word
    (away : i < scan.decrements ∨ (scan.counted reads turn).decrements ≤ i) :
    (scan.counted reads turn).buffer.word i = scan.buffer.word i := by
  rw [counted, down_word, up_buffer, take_word]
  rw [up_decrements, take_decrements]
  exact away

theorem counted_kept (read : (scan.take reads).buffer.unread scan.decrements = false) :
    (scan.counted reads turn).buffer.kept = scan.buffer.kept := by
  rw [counted, down_kept, up_buffer, take_kept]
  rw [up_buffer, up_decrements, take_decrements]
  exact read

variable {scan i reads turn} in
theorem unread_of_counted (unread : (scan.counted reads turn).buffer.unread i = true) :
    scan.decrements ≤ i ∧ i < (scan.counted reads turn).decrements ∨
      (scan.take reads).buffer.unread i = true := by
  have either := unread_of_down unread
  rw [up_decrements, take_decrements, up_buffer] at either
  exact either

end

/-- What turns have done that have read `n` entries of the copy and passed `k` of the saved
snapshot. -/
structure Effect (n k : Nat) (moves : List Moves) (scan after : Scan) : Prop where
  length : moves.length = k
  p0 : after.p0 = scan.p0 + n
  p1 : after.p1 = scan.p1 + k
  decrements : after.decrements = scan.decrements + (Moves.downs moves).length
  calls : after.calls = scan.calls ++ (Moves.ups moves).map Call.increment
  pending : slice after.buffer.word scan.decrements (Moves.downs moves).length =
    Moves.downs moves
  saved : slice after.buffer.word scan.p1 k = Moves.saves moves (slice scan.buffer.word scan.p1 k)
  frame : ∀ i, i < scan.p1 ∨ scan.p1 + k ≤ i → i < scan.decrements ∨ after.decrements ≤ i →
    after.buffer.word i = scan.buffer.word i
  kept : after.buffer.kept = scan.buffer.kept
  unread : ∀ i, after.buffer.unread i = true → scan.p1 ≤ i ∧ i < scan.p1 + k ∨
    scan.decrements ≤ i ∧ i < after.decrements ∨
    scan.buffer.unread i = true ∧ (i < scan.p0 ∨ scan.p0 + n ≤ i)

/-- Room for turns: the decrements stay behind what is read of the copy, and the saved
snapshot is elsewhere. -/
structure Room (reads : Reads) (k : Nat) (scan : Scan) : Prop where
  apart : scan.p1 + k ≤ scan.decrements ∨ scan.decrements + k ≤ scan.p1
  behind : reads.copy = true → scan.decrements ≤ scan.p0 ∧
    (scan.p1 + k ≤ scan.p0 ∨ scan.p0 + k ≤ scan.p1)
  gap : ∀ i, scan.decrements ≤ i → i < scan.decrements + k → scan.buffer.unread i = true →
    reads.copy = true ∧ scan.p0 ≤ i
  fresh : reads.saved = false → ∀ i, scan.p1 ≤ i → i < scan.p1 + k →
    scan.buffer.unread i = false

theorem Room.mono {reads : Reads} {k l : Nat} {scan : Scan} (room : Room reads k scan)
    (le : l ≤ k) : Room reads l scan := by
  have apart := room.apart
  constructor
  · omega
  · intro copy
    have behind := room.behind copy
    omega
  · intro i low high unread
    exact room.gap i low (by omega) unread
  · intro fresh i low high
    exact room.fresh fresh i low (by omega)

theorem Effect.refl (scan : Scan) : Effect 0 0 [] scan scan where
  length := rfl
  p0 := rfl
  p1 := rfl
  decrements := rfl
  calls := (List.append_nil _).symm
  pending := rfl
  saved := rfl
  frame _ _ _ := rfl
  kept := rfl
  unread i unread := .inr (.inr ⟨unread, by omega⟩)

theorem Effect.trans {n m k l : Nat} {first second : List Moves} {scan mid after : Scan}
    (effect : Effect n k first scan mid) (later : Effect m l second mid after)
    (apart : scan.p1 + (k + l) ≤ scan.decrements ∨ scan.decrements + (k + l) ≤ scan.p1) :
    Effect (n + m) (k + l) (first ++ second) scan after := by
  have few := Moves.length_downs_le first
  have few' := Moves.length_downs_le second
  have length := effect.length
  have length' := later.length
  have p0 := effect.p0
  have p1 := effect.p1
  have decrements := effect.decrements
  have decrements' := later.decrements
  constructor
  · rw [List.length_append, length, length']
  · rw [later.p0, p0, Nat.add_assoc]
  · rw [later.p1, p1, Nat.add_assoc]
  · rw [decrements', decrements, Moves.downs_append, List.length_append, Nat.add_assoc]
  · rw [later.calls, effect.calls, Moves.ups_append, List.map_append, List.append_assoc]
  · rw [Moves.downs_append, List.length_append, slice_append, ← decrements, later.pending]
    congr 1
    refine Eq.trans ?_ effect.pending
    apply slice_congr
    intro j low high
    apply later.frame <;> omega
  · rw [slice_append, slice_append, ← p1, later.saved]
    have former : slice after.buffer.word scan.p1 k = slice mid.buffer.word scan.p1 k := by
      apply slice_congr
      intro j low high
      apply later.frame <;> omega
    have rest : slice mid.buffer.word mid.p1 l = slice scan.buffer.word mid.p1 l := by
      apply slice_congr
      intro j low high
      apply effect.frame <;> omega
    rw [former, effect.saved, rest, Moves.saves, Moves.saves, Moves.saves, List.zipWith_append]
    rw [length, length_slice]
  · intro i outside away
    rw [later.frame i (by omega) (by omega)]
    apply effect.frame <;> omega
  · rw [later.kept, effect.kept]
  · intro i unread
    rcases later.unread i unread with saved | pending | ⟨unread, other⟩
    · exact .inl (by omega)
    · exact .inr (.inl (by omega))
    · rcases effect.unread i unread with saved | pending | ⟨unread, other'⟩
      · exact .inl (by omega)
      · exact .inr (.inl (by omega))
      · exact .inr (.inr ⟨unread, by omega⟩)

section

variable {reads : Reads} {moves : Nat → Nat → Moves} {scan : Scan}

theorem move_effect (moves : Nat → Nat → Moves) (room : Room reads 1 scan) :
    Effect (if reads.copy then 1 else 0) 1
      [moves (scan.buffer.word (scan.source reads)) (scan.buffer.word scan.p1)] scan
      (scan.move reads moves) := by
  have apart := room.apart
  unfold move
  generalize moves (scan.buffer.word (scan.source reads)) (scan.buffer.word scan.p1) = turn
  change Effect _ 1 [turn] scan ((scan.counted reads turn).store turn.saved).next
  have place := scan.counted_decrements reads turn
  have short := Moves.length_downs_le [turn]
  rw [List.length_singleton] at short
  have behind : (scan.take reads).buffer.unread scan.decrements = false := by
    apply Bool.eq_false_iff.mpr
    intro unread
    obtain ⟨unread, copied, _⟩ := unread_of_take unread
    obtain ⟨copy, low⟩ := room.gap _ (Nat.le_refl _) (Nat.lt_succ_self _) unread
    have high := (room.behind copy).1
    exact copied copy (Nat.le_antisymm high low)
  have passed : (scan.counted reads turn).buffer.unread scan.p1 = false := by
    apply Bool.eq_false_iff.mpr
    intro unread
    rcases unread_of_counted unread with inside | unread
    · omega
    · obtain ⟨unread, _, saved⟩ := unread_of_take unread
      by_cases old : reads.saved = true
      · exact saved old rfl
      · have fresh := room.fresh (Bool.eq_false_iff.mpr old) scan.p1 (Nat.le_refl _)
          (Nat.lt_succ_self _)
        rw [fresh] at unread
        cases unread
  constructor
  · rfl
  · simp only [next, store_p0, counted_p0, take_p0]
  · simp only [next, store_p1, counted_p1]
  · simp only [next, store_decrements]
    exact place
  · simp only [next, store_calls]
    exact scan.counted_calls reads turn
  · refine Eq.trans ?_ (scan.counted_pending reads turn)
    apply slice_congr
    intro j low high
    apply store_word
    rw [counted_p1]
    omega
  · have kept : (scan.counted reads turn).buffer.word scan.p1 = scan.buffer.word scan.p1 := by
      apply counted_word
      omega
    have stored := (scan.counted reads turn).store_saved turn.saved
    rw [counted_p1, kept] at stored
    exact congrArg (fun x => [x]) stored
  · intro i outside away
    simp only [next, store_decrements] at away
    have other : i ≠ (scan.counted reads turn).p1 := by
      rw [counted_p1]
      omega
    have stored := store_word (scan.counted reads turn) i turn.saved other
    exact stored.trans (scan.counted_word reads i turn away)
  · have stored := store_kept (scan.counted reads turn) turn.saved
    rw [counted_p1] at stored
    exact (stored passed).trans (scan.counted_kept reads turn behind)
  · intro i unread
    simp only [next, store_decrements]
    rcases unread_of_store unread with saved | unread
    · rw [counted_p1] at saved
      exact .inl (by omega)
    · rcases unread_of_counted unread with inside | unread
      · exact .inr (.inl inside)
      · obtain ⟨unread, copied, _⟩ := unread_of_take unread
        refine .inr (.inr ⟨unread, ?_⟩)
        by_cases copy : reads.copy = true
        · have apart := copied copy
          rw [if_pos copy]
          omega
        · rw [if_neg copy]
          omega

theorem Effect.room {k : Nat} {first : List Moves} {after : Scan}
    (effect : Effect (if reads.copy then 1 else 0) 1 first scan after)
    (room : Room reads (k + 1) scan) : Room reads k after := by
  have few := Moves.length_downs_le first
  have length := effect.length
  have p0 := effect.p0
  have p1 := effect.p1
  have decrements := effect.decrements
  have apart := room.apart
  constructor
  · omega
  · intro copy
    obtain ⟨behind, away⟩ := room.behind copy
    rw [if_pos copy] at p0
    omega
  · intro i low high unread
    rcases effect.unread i unread with saved | pending | ⟨unread, other⟩
    · omega
    · omega
    · obtain ⟨copy, late⟩ := room.gap i (by omega) (by omega) unread
      rw [if_pos copy] at p0 other
      exact ⟨copy, by omega⟩
  · intro fresh i low high
    apply Bool.eq_false_iff.mpr
    intro unread
    rcases effect.unread i unread with saved | pending | ⟨unread, other⟩
    · omega
    · omega
    · have quiet := room.fresh fresh i (by omega) (by omega)
      rw [quiet] at unread
      cases unread

/-- What `k` turns do. -/
theorem iterate_effect (moves : Nat → Nat → Moves) (k : Nat) (room : Room reads k scan) :
    Effect (if reads.copy then k else 0) k
      (List.zipWith moves
        (slice scan.buffer.word (scan.source reads) k) (slice scan.buffer.word scan.p1 k))
      scan ((move reads moves)^[k] scan) := by
  induction k generalizing scan with
  | zero =>
      have none_ : (if reads.copy then 0 else 0) = 0 := by split <;> rfl
      rw [none_]
      exact Effect.refl scan
  | succ k induction =>
      have single : Room reads 1 scan := room.mono (by omega)
      have effect := move_effect moves single
      have later := induction (effect.room room)
      have p0 := effect.p0
      have p1 := effect.p1
      have few := Moves.length_downs_le
        [moves (scan.buffer.word (scan.source reads)) (scan.buffer.word scan.p1)]
      have decrements := effect.decrements
      have apart := room.apart
      rw [List.length_singleton] at few
      have sources : slice (scan.move reads moves).buffer.word
          ((scan.move reads moves).source reads) k =
          slice scan.buffer.word (scan.source reads + 1) k := by
        unfold source
        by_cases copy : reads.copy = true
        · have behind := room.behind copy
          rw [if_pos copy] at p0
          rw [if_pos copy, if_pos copy, p0]
          apply slice_congr
          intro j low high
          apply effect.frame <;> omega
        · rw [if_neg copy, if_neg copy, p1]
          apply slice_congr
          intro j low high
          apply effect.frame <;> omega
      have olds : slice (scan.move reads moves).buffer.word (scan.move reads moves).p1 k =
          slice scan.buffer.word (scan.p1 + 1) k := by
        rw [p1]
        apply slice_congr
        intro j low high
        apply effect.frame <;> omega
      rw [sources, olds] at later
      have whole := effect.trans later (by omega)
      have count : (if reads.copy then 1 else 0) + (if reads.copy then k else 0) =
          if reads.copy then k + 1 else 0 := by
        split <;> omega
      rw [count, Nat.add_comm 1 k] at whole
      rw [Function.iterate_succ_apply]
      exact whole

end

section

variable {scan : Scan} {q1 : Nat}

theorem fEpochIncrement_effect (objects : Objects) (room : Room ⟨true, true⟩ (q1 - scan.p1) scan) :
    Effect (q1 - scan.p1) (q1 - scan.p1)
      (List.zipWith (Moves.compared objects) (slice scan.buffer.word scan.p0 (q1 - scan.p1))
        (slice scan.buffer.word scan.p1 (q1 - scan.p1)))
      scan (scan.fEpochIncrement objects q1) := by
  rw [fEpochIncrement, compare_eq]
  exact iterate_effect _ _ room

theorem increment_effect (objects : Objects) (room : Room ⟨true, false⟩ (q1 - scan.p1) scan) :
    Effect (q1 - scan.p1) (q1 - scan.p1)
      (List.zipWith (Moves.grown objects) (slice scan.buffer.word scan.p0 (q1 - scan.p1))
        (slice scan.buffer.word scan.p1 (q1 - scan.p1)))
      scan (scan.increment objects q1) := by
  rw [increment, grow_eq]
  exact iterate_effect _ _ room

theorem decrement_effect (room : Room ⟨false, true⟩ (q1 - scan.p1) scan) :
    Effect 0 (q1 - scan.p1)
      (List.zipWith Moves.shrunk (slice scan.buffer.word scan.p1 (q1 - scan.p1))
        (slice scan.buffer.word scan.p1 (q1 - scan.p1)))
      scan (scan.decrement q1) := by
  rw [decrement, shrink_eq]
  exact iterate_effect _ _ room

end

end Scan

/-! ### Two snapshots -/

/-- What is saved of a snapshot: of each word what is found, or a word that is saved already
without a look. -/
def Looked (objects : Objects) (olds news saved : List Nat) : Prop :=
  List.Forall₂ (fun p q => q = objects.fObjectFind p ∨ q = p ∧ p ∈ olds) news saved

theorem Looked.found {objects : Objects} {olds news saved : List Nat}
    (looked : Looked objects olds news saved) (still : ∀ q ∈ olds, objects.fObjectFind q = q) :
    saved = news.map objects.fObjectFind := by
  induction looked with
  | nil => rfl
  | cons word _ induction =>
      rw [List.map_cons, induction]
      rcases word with rfl | ⟨rfl, old⟩
      · rfl
      · rw [still _ old]

theorem Looked.append {objects : Objects} {olds olds' news news' saved saved' : List Nat}
    (looked : Looked objects olds news saved) (looked' : Looked objects olds' news' saved') :
    Looked objects (olds ++ olds') (news ++ news') (saved ++ saved') := by
  apply List.rel_append
  · exact List.Forall₂.imp (fun _ _ word => word.imp_right fun kept =>
      ⟨kept.1, List.mem_append_left _ kept.2⟩) looked
  · exact List.Forall₂.imp (fun _ _ word => word.imp_right fun kept =>
      ⟨kept.1, List.mem_append_right _ kept.2⟩) looked'

/-- What moves make of two snapshots: they count what is saved for what had been, and go up
with what is found and down with what had been saved. -/
structure Delta (objects : Objects) (news olds : List Nat) (moves : List Moves)
    (saved : List Nat) : Prop where
  ups : ∀ p ∈ Moves.ups moves, p ≠ 0 ∧ objects.fObjectFind p = p
  downs : ∀ q ∈ Moves.downs moves, q ≠ 0 ∧ q ∈ olds
  count : ∀ object, object ≠ 0 → (Moves.ups moves).count object + olds.count object =
    (Moves.downs moves).count object + saved.count object
  looked : Looked objects olds news saved

theorem Objects.fObjectFind_idem (objects : Objects) (p : Nat) :
    objects.fObjectFind (objects.fObjectFind p) = objects.fObjectFind p := by
  unfold fObjectFind
  split
  · simp
  · split
    · rfl
    · simp

namespace Delta

variable {objects : Objects}

theorem count_filter {object : Nat} (real : object ≠ 0) (words : List Nat) :
    (words.filter (· ≠ 0)).count object = words.count object := by
  apply List.count_filter
  simpa using real

theorem append {news olds news' olds' saved saved' : List Nat} {moves moves' : List Moves}
    (delta : Delta objects news olds moves saved)
    (delta' : Delta objects news' olds' moves' saved') :
    Delta objects (news ++ news') (olds ++ olds') (moves ++ moves') (saved ++ saved') := by
  constructor
  · intro p up
    rw [Moves.ups_append] at up
    exact (List.mem_append.mp up).elim (delta.ups p) (delta'.ups p)
  · intro q down
    rw [Moves.downs_append] at down
    rcases List.mem_append.mp down with down | down
    · exact (delta.downs q down).imp_right (List.mem_append_left _)
    · exact (delta'.downs q down).imp_right (List.mem_append_right _)
  · intro object real
    have count := delta.count object real
    have count' := delta'.count object real
    simp only [Moves.ups_append, Moves.downs_append, List.count_append]
    omega
  · exact delta.looked.append delta'.looked

theorem nil : Delta objects [] [] [] [] where
  ups _ up := absurd up List.not_mem_nil
  downs _ down := absurd down List.not_mem_nil
  count _ _ := rfl
  looked := .nil

theorem turn {move : Moves} {news olds saved : List Nat}
    (up : move.up ≠ 0 → objects.fObjectFind move.up = move.up)
    (down : move.down ≠ 0 → move.down ∈ olds)
    (count : ∀ object, object ≠ 0 → [move.up].count object + olds.count object =
      [move.down].count object + saved.count object)
    (looked : Looked objects olds news saved) :
    Delta objects news olds [move] saved where
  ups p inside := by
    obtain ⟨member, real⟩ := List.mem_filter.mp inside
    obtain rfl := List.mem_singleton.mp member
    have real := of_decide_eq_true real
    exact ⟨real, up real⟩
  downs q inside := by
    obtain ⟨member, real⟩ := List.mem_filter.mp inside
    obtain rfl := List.mem_singleton.mp member
    have real := of_decide_eq_true real
    exact ⟨real, down real⟩
  count object real := by
    have ups : (Moves.ups [move]).count object = [move.up].count object :=
      count_filter real [move.up]
    have downs : (Moves.downs [move]).count object = [move.down].count object :=
      count_filter real [move.down]
    rw [ups, downs]
    exact count object real
  looked := looked

theorem compared_turn (p q : Nat) :
    Delta objects [p] [q] [Moves.compared objects p q]
      [(Moves.compared objects p q).saved.getD q] := by
  apply turn
  · intro up
    unfold Moves.compared at up ⊢
    split at up
    · exact absurd rfl up
    · split at up
      · exact absurd rfl up
      · rw [if_neg (by assumption), if_neg (by assumption)]
        exact objects.fObjectFind_idem p
  · intro down
    unfold Moves.compared at down ⊢
    split at down
    · exact absurd rfl down
    · split at down
      · exact absurd rfl down
      · rw [if_neg (by assumption), if_neg (by assumption)]
        exact List.mem_cons_self
  · intro object real
    unfold Moves.compared
    split
    · simp [Ne.symm real]
    · split
      · simp [Ne.symm real]
      · simp [Nat.add_comm]
  · refine .cons ?_ .nil
    unfold Moves.compared
    by_cases same : p = q
    · rw [if_pos same]
      exact .inr ⟨same.symm, same ▸ List.mem_cons_self⟩
    · rw [if_neg same]
      by_cases found : objects.fObjectFind p = q
      · rw [if_pos found]
        exact .inl found.symm
      · rw [if_neg found]
        exact .inl rfl

theorem grown_turn (p q : Nat) :
    Delta objects [p] [] [Moves.grown objects p q] [objects.fObjectFind p] := by
  apply turn
  · exact fun _ => objects.fObjectFind_idem p
  · exact fun down => absurd rfl down
  · intro object real
    simp [Moves.grown, Ne.symm real]
  · exact .cons (.inl rfl) .nil

theorem shrunk_turn (q : Nat) : Delta objects [] [q] [Moves.shrunk q q] [] := by
  apply turn
  · exact fun up => absurd rfl up
  · exact fun _ => List.mem_cons_self
  · intro object real
    simp [Moves.shrunk, Ne.symm real]
  · exact .nil

theorem compared (news olds : List Nat) (same : news.length = olds.length) :
    Delta objects news olds (List.zipWith (Moves.compared objects) news olds)
      (Moves.saves (List.zipWith (Moves.compared objects) news olds) olds) := by
  induction news generalizing olds with
  | nil =>
      cases olds with
      | nil => exact nil
      | cons q olds => cases same
  | cons p news induction =>
      cases olds with
      | nil => cases same
      | cons q olds =>
          exact (compared_turn p q).append (induction olds (Nat.succ.inj same))

theorem grown (news stale : List Nat) (same : news.length = stale.length) :
    Delta objects news [] (List.zipWith (Moves.grown objects) news stale)
      (Moves.saves (List.zipWith (Moves.grown objects) news stale) stale) := by
  induction news generalizing stale with
  | nil =>
      cases stale with
      | nil => exact nil
      | cons q stale => cases same
  | cons p news induction =>
      cases stale with
      | nil => cases same
      | cons q stale =>
          exact (grown_turn p q).append (induction stale (Nat.succ.inj same))

theorem shrunk (olds : List Nat) :
    Delta objects [] olds (List.zipWith Moves.shrunk olds olds) [] := by
  induction olds with
  | nil => exact nil
  | cons q olds induction =>
      exact (shrunk_turn q).append induction

end Delta

/-! ### The scans -/

/-- What turns have done: `n` words of the copy and `k` places of the saved snapshot, with
what these had been and what is saved of them. -/
def Phase (objects : Objects) (n k : Nat) (news olds saved : List Nat) (scan after : Scan) :
    Prop :=
  ∃ moves, Scan.Effect n k moves scan after ∧ Delta objects news olds moves saved

namespace Phase

variable {objects : Objects} {scan mid after : Scan} {n k : Nat} {news olds saved : List Nat}

theorem positions (phase : Phase objects n k news olds saved scan after) :
    after.p0 = scan.p0 + n ∧ after.p1 = scan.p1 + k ∧ scan.decrements ≤ after.decrements ∧
      after.decrements ≤ scan.decrements + k := by
  obtain ⟨moves, effect, _⟩ := phase
  have few := Moves.length_downs_le moves
  have length := effect.length
  have decrements := effect.decrements
  refine ⟨effect.p0, effect.p1, ?_, ?_⟩ <;> omega

theorem frame (phase : Phase objects n k news olds saved scan after) {i m : Nat}
    (outside : i + m ≤ scan.p1 ∨ scan.p1 + k ≤ i)
    (away : i + m ≤ scan.decrements ∨ after.decrements ≤ i) :
    slice after.buffer.word i m = slice scan.buffer.word i m := by
  obtain ⟨moves, effect, _⟩ := phase
  apply slice_congr
  intro j low high
  apply effect.frame <;> omega

theorem unread (phase : Phase objects n k news olds saved scan after) {i : Nat}
    (unread : after.buffer.unread i = true) : scan.p1 ≤ i ∧ i < scan.p1 + k ∨
      scan.decrements ≤ i ∧ i < after.decrements ∨
      scan.buffer.unread i = true ∧ (i < scan.p0 ∨ scan.p0 + n ≤ i) := by
  obtain ⟨moves, effect, _⟩ := phase
  exact effect.unread i unread

theorem trans {n' k' : Nat} {news' olds' saved' : List Nat}
    (phase : Phase objects n k news olds saved scan mid)
    (later : Phase objects n' k' news' olds' saved' mid after)
    (apart : scan.p1 + (k + k') ≤ scan.decrements ∨ scan.decrements + (k + k') ≤ scan.p1) :
    Phase objects (n + n') (k + k') (news ++ news') (olds ++ olds') (saved ++ saved') scan
      after := by
  obtain ⟨moves, effect, delta⟩ := phase
  obtain ⟨moves', effect', delta'⟩ := later
  exact ⟨moves ++ moves', effect.trans effect' apart, delta.append delta'⟩

/-- `f_epoch_increment` over `k` entries. -/
theorem compare (objects : Objects) (q1 : Nat) (place : q1 = scan.p1 + k)
    (room : Scan.Room ⟨true, true⟩ k scan) :
    Phase objects k k (slice scan.buffer.word scan.p0 k) (slice scan.buffer.word scan.p1 k)
      (slice (scan.fEpochIncrement objects q1).buffer.word scan.p1 k) scan
      (scan.fEpochIncrement objects q1) := by
  have turns : q1 - scan.p1 = k := by omega
  have effect := Scan.fEpochIncrement_effect objects (turns ▸ room)
  rw [turns] at effect
  refine ⟨_, effect, ?_⟩
  rw [effect.saved]
  apply Delta.compared
  rw [length_slice, length_slice]

/-- The lambda `increment` over `k` entries. -/
theorem grow (objects : Objects) (q1 : Nat) (place : q1 = scan.p1 + k)
    (room : Scan.Room ⟨true, false⟩ k scan) :
    Phase objects k k (slice scan.buffer.word scan.p0 k) []
      (slice (scan.increment objects q1).buffer.word scan.p1 k) scan
      (scan.increment objects q1) := by
  have turns : q1 - scan.p1 = k := by omega
  have effect := Scan.increment_effect objects (turns ▸ room)
  rw [turns] at effect
  refine ⟨_, effect, ?_⟩
  rw [effect.saved]
  apply Delta.grown
  rw [length_slice, length_slice]

/-- The loops over `k` entries that the new snapshot does not reach. -/
theorem shrink (objects : Objects) (q1 : Nat) (place : q1 = scan.p1 + k)
    (room : Scan.Room ⟨false, true⟩ k scan) :
    Phase objects 0 k [] (slice scan.buffer.word scan.p1 k) [] scan (scan.decrement q1) := by
  have turns : q1 - scan.p1 = k := by omega
  have effect := Scan.decrement_effect (turns ▸ room)
  rw [turns] at effect
  exact ⟨_, effect, Delta.shrunk _⟩

end Phase

namespace Sizes

variable {sizes : Sizes} {scan : Scan} (objects : Objects) (m l : Nat)

/-- The value stack, where `m` words have been copied and `l` are saved. -/
theorem values_phase (p0 : scan.p0 = 0) (p1 : scan.p1 = sizes.lastHead)
    (decrements : scan.decrements = 0) (short : m ≤ sizes.stack) (short' : l ≤ sizes.stack)
    (blank : ∀ i, m ≤ i ∧ i < sizes.lastHead ∨
      sizes.lastHead + l ≤ i ∧ i < sizes.lastHead + sizes.stack → scan.buffer.unread i = false) :
    Phase objects m (max m l) (slice scan.buffer.word 0 m)
      (slice scan.buffer.word sizes.lastHead l)
      (slice (scan.values objects (sizes.lastHead + m) (sizes.lastHead + l)).buffer.word
        sizes.lastHead m)
      scan (scan.values objects (sizes.lastHead + m) (sizes.lastHead + l)) := by
  have head : sizes.lastHead = sizes.stack := rfl
  have room : Scan.Room ⟨true, true⟩ (min m l) scan := by
    constructor
    · omega
    · intro _
      omega
    · intro i low high unread
      exact ⟨rfl, by omega⟩
    · nofun
  have place : min (sizes.lastHead + m) (sizes.lastHead + l) = scan.p1 + min m l := by omega
  have first := Phase.compare objects _ place room
  rw [p0, p1] at first
  unfold Scan.values
  simp only
  generalize scan.fEpochIncrement objects _ = mid at first ⊢
  have positions := first.positions
  split
  · rename_i more
    have least : min m l = l := by omega
    have longest : max m l = m := by omega
    have all : l + (m - l) = m := by omega
    rw [least] at first positions
    have room' : Scan.Room ⟨true, false⟩ (m - l) mid := by
      constructor
      · omega
      · intro _
        omega
      · intro i low high unread
        rcases first.unread unread with inside | inside | ⟨_, away⟩
        · omega
        · omega
        · exact ⟨rfl, by omega⟩
      · intro _ i low high
        apply Bool.eq_false_iff.mpr
        intro unread
        rcases first.unread unread with inside | inside | ⟨unread, _⟩
        · omega
        · omega
        · rw [blank i (by omega)] at unread
          cases unread
    have second := Phase.grow objects (sizes.lastHead + m) (by omega) room'
    generalize mid.increment objects _ = after at second ⊢
    have positions' := second.positions
    have copied :
        slice mid.buffer.word mid.p0 (m - l) = slice scan.buffer.word (0 + l) (m - l) := by
      rw [first.frame (by omega) (by omega), positions.1, p0]
    have kept : slice after.buffer.word sizes.lastHead l =
        slice mid.buffer.word sizes.lastHead l :=
      second.frame (by omega) (by omega)
    have place' : mid.p1 = sizes.lastHead + l := by omega
    have whole := first.trans second (by omega)
    rw [copied, place', ← kept, ← slice_append, ← slice_append, List.append_nil, all] at whole
    rw [longest]
    exact whole
  · rename_i less
    have least : min m l = m := by omega
    have longest : max m l = l := by omega
    have all : m + (l - m) = l := by omega
    rw [least] at first positions
    have room' : Scan.Room ⟨false, true⟩ (l - m) mid := by
      constructor
      · omega
      · nofun
      · intro i low high unread
        rcases first.unread unread with inside | inside | ⟨unread, _⟩
        · omega
        · omega
        · rw [blank i (by omega)] at unread
          cases unread
      · nofun
    have second := Phase.shrink objects (sizes.lastHead + l) (by omega) room'
    generalize mid.decrement _ = after at second ⊢
    have positions' := second.positions
    have olds : slice mid.buffer.word mid.p1 (l - m) =
        slice scan.buffer.word (sizes.lastHead + m) (l - m) := by
      rw [first.frame (by omega) (by omega), positions.2.1, p1]
    have kept : slice after.buffer.word sizes.lastHead m =
        slice mid.buffer.word sizes.lastHead m :=
      second.frame (by omega) (by omega)
    have whole := first.trans second (by omega)
    rw [olds, ← kept, ← slice_append, List.append_nil, List.append_nil, Nat.add_zero, all] at whole
    rw [longest]
    exact whole

/-- Of the native stack more words have been copied than are saved. -/
theorem words_grown (p0 : scan.p0 = sizes.stackCopy - m) (p1 : scan.p1 = sizes.lastBottom - m)
    (decrements : scan.decrements = sizes.lastBottom) (more : l ≤ m) (short : m ≤ sizes.limit)
    (blank : ∀ i, sizes.lastBottom ≤ i ∧ i < sizes.stackCopy - m ∨
      sizes.lastBottom - sizes.limit ≤ i ∧ i < sizes.lastBottom - l →
        scan.buffer.unread i = false) :
    Phase objects m m (slice scan.buffer.word (sizes.stackCopy - m) m)
      (slice scan.buffer.word (sizes.lastBottom - l) l)
      (slice ((scan.increment objects (sizes.lastBottom - l)).fEpochIncrement objects
        sizes.lastBottom).buffer.word (sizes.lastBottom - m) m)
      scan ((scan.increment objects (sizes.lastBottom - l)).fEpochIncrement objects
        sizes.lastBottom) := by
  have bottom : sizes.lastBottom = sizes.stack + sizes.stack + sizes.limit := rfl
  have copy : sizes.stackCopy = sizes.lastBottom + sizes.limit := rfl
  have all : m - l + l = m := by omega
  have room : Scan.Room ⟨true, false⟩ (m - l) scan := by
    constructor
    · omega
    · intro _
      omega
    · intro i low high unread
      by_cases late : scan.p0 ≤ i
      · exact ⟨rfl, late⟩
      · rw [blank i (by omega)] at unread
        cases unread
    · intro _ i low high
      exact blank i (by omega)
  have first := Phase.grow objects (sizes.lastBottom - l) (by omega) room
  generalize scan.increment objects _ = mid at first ⊢
  have positions := first.positions
  have room' : Scan.Room ⟨true, true⟩ l mid := by
    constructor
    · omega
    · intro _
      omega
    · intro i low high unread
      rcases first.unread unread with inside | inside | ⟨unread, away⟩
      · omega
      · omega
      · by_cases late : mid.p0 ≤ i
        · exact ⟨rfl, late⟩
        · rw [blank i (by omega)] at unread
          cases unread
    · nofun
  have second := Phase.compare objects sizes.lastBottom (by omega) room'
  generalize mid.fEpochIncrement objects _ = after at second ⊢
  have copied : slice mid.buffer.word mid.p0 l =
      slice scan.buffer.word (sizes.stackCopy - m + (m - l)) l := by
    rw [first.frame (by omega) (by omega), positions.1, p0]
  have olds : slice mid.buffer.word mid.p1 l =
      slice scan.buffer.word (sizes.lastBottom - l) l := by
    have place : mid.p1 = sizes.lastBottom - l := by omega
    rw [first.frame (by omega) (by omega), place]
  have kept : slice after.buffer.word (sizes.lastBottom - m) (m - l) =
      slice mid.buffer.word (sizes.lastBottom - m) (m - l) :=
    second.frame (by omega) (by omega)
  have place : mid.p1 = sizes.lastBottom - m + (m - l) := by omega
  have whole := first.trans second (by omega)
  rw [copied, olds, place, p0, p1, ← kept, ← slice_append, ← slice_append, List.nil_append,
    all] at whole
  exact whole

/-- Of the native stack no more words have been copied than are saved. -/
theorem words_shrunk (p0 : scan.p0 = sizes.stackCopy - m) (p1 : scan.p1 = sizes.lastBottom - l)
    (decrements : scan.decrements = sizes.lastBottom) (less : m ≤ l) (short : l ≤ sizes.limit)
    (blank : ∀ i, sizes.lastBottom ≤ i ∧ i < sizes.stackCopy - m → scan.buffer.unread i = false) :
    Phase objects m l (slice scan.buffer.word (sizes.stackCopy - m) m)
      (slice scan.buffer.word (sizes.lastBottom - l) l)
      (slice ((scan.decrement (sizes.lastBottom - m)).fEpochIncrement objects
        sizes.lastBottom).buffer.word (sizes.lastBottom - m) m)
      scan ((scan.decrement (sizes.lastBottom - m)).fEpochIncrement objects
        sizes.lastBottom) := by
  have bottom : sizes.lastBottom = sizes.stack + sizes.stack + sizes.limit := rfl
  have copy : sizes.stackCopy = sizes.lastBottom + sizes.limit := rfl
  have all : l - m + m = l := by omega
  have room : Scan.Room ⟨false, true⟩ (l - m) scan := by
    constructor
    · omega
    · nofun
    · intro i low high unread
      rw [blank i (by omega)] at unread
      cases unread
    · nofun
  have first := Phase.shrink objects (sizes.lastBottom - m) (by omega) room
  generalize scan.decrement _ = mid at first ⊢
  have positions := first.positions
  have room' : Scan.Room ⟨true, true⟩ m mid := by
    constructor
    · omega
    · intro _
      omega
    · intro i low high unread
      rcases first.unread unread with inside | inside | ⟨unread, away⟩
      · omega
      · omega
      · by_cases late : mid.p0 ≤ i
        · exact ⟨rfl, late⟩
        · rw [blank i (by omega)] at unread
          cases unread
    · nofun
  have second := Phase.compare objects sizes.lastBottom (by omega) room'
  generalize mid.fEpochIncrement objects _ = after at second ⊢
  have copied : slice mid.buffer.word mid.p0 m =
      slice scan.buffer.word (sizes.stackCopy - m) m := by
    have place : mid.p0 = sizes.stackCopy - m := by omega
    rw [first.frame (by omega) (by omega), place]
  have place : mid.p1 = sizes.lastBottom - m := by omega
  have olds : slice mid.buffer.word mid.p1 m =
      slice scan.buffer.word (sizes.lastBottom - l + (l - m)) m := by
    have start : mid.p1 = sizes.lastBottom - l + (l - m) := by omega
    rw [first.frame (by omega) (by omega), start]
  have whole := first.trans second (by omega)
  rw [copied, olds, place, p1, ← slice_append, List.nil_append, List.nil_append, Nat.zero_add,
    all] at whole
  exact whole

/-- The native stack, where `m` words have been copied and `l` are saved. -/
theorem words_phase (p0 : scan.p0 = sizes.stackCopy - m)
    (decrements : scan.decrements = sizes.lastBottom) (short : m ≤ sizes.limit)
    (short' : l ≤ sizes.limit)
    (blank : ∀ i, sizes.lastBottom ≤ i ∧ i < sizes.stackCopy - m ∨
      sizes.lastBottom - sizes.limit ≤ i ∧ i < sizes.lastBottom - l →
        scan.buffer.unread i = false) :
    Phase objects m (max m l) (slice scan.buffer.word (sizes.stackCopy - m) m)
      (slice scan.buffer.word (sizes.lastBottom - l) l)
      (slice (scan.words objects (sizes.lastBottom - m) (sizes.lastBottom - l)
        sizes.lastBottom).buffer.word (sizes.lastBottom - m) m)
      { scan with p1 := min (sizes.lastBottom - m) (sizes.lastBottom - l) }
      (scan.words objects (sizes.lastBottom - m) (sizes.lastBottom - l) sizes.lastBottom) := by
  have bottom : sizes.lastBottom = sizes.stack + sizes.stack + sizes.limit := rfl
  unfold Scan.words
  simp only
  split
  · rename_i deeper
    have lower : min (sizes.lastBottom - m) (sizes.lastBottom - l) = sizes.lastBottom - m := by
      omega
    have longest : max m l = m := by omega
    have more : l ≤ m := by omega
    rw [lower, longest]
    exact words_grown objects m l p0 rfl decrements more short blank
  · rename_i higher
    have lower : min (sizes.lastBottom - m) (sizes.lastBottom - l) = sizes.lastBottom - l := by
      omega
    have longest : max m l = l := by omega
    have less : m ≤ l := by omega
    rw [lower, longest]
    exact words_shrunk objects m l p0 rfl decrements less short'
      fun i inside => blank i (.inl inside)

end Sizes

end Xemmai.Snapshots
