import Xemmai.Scans
import Xemmai.References

/-!
# The epochs of a fiber

The scans put together to an epoch, the epochs to runs, and what the calls that an epoch
makes do to the counts of the objects when the collector thread performs them.
-/

namespace Xemmai.Snapshots

set_option autoImplicit false

namespace Buffer

variable (buffer : Buffer) (xs : List Nat) (i : Nat)

theorem fill_frame {j : Nat} (outside : j < i ∨ i + xs.length ≤ j) :
    (buffer.fill i xs).word j = buffer.word j := by
  induction xs generalizing buffer i with
  | nil => rfl
  | cons x xs induction =>
      rw [List.length_cons] at outside
      rw [fill, induction (buffer.write i x) (i + 1) (by omega)]
      apply Function.update_of_ne
      omega

theorem fill_slice : slice (buffer.fill i xs).word i xs.length = xs := by
  induction xs generalizing buffer i with
  | nil => rfl
  | cons x xs induction =>
      have first : (fill (buffer.write i x) (i + 1) xs).word i = x := by
        rw [fill_frame _ _ _ (.inl (Nat.lt_succ_self i))]
        exact Function.update_self _ _ _
      rw [fill, List.length_cons, slice, induction, first]

theorem unread_of_fill {j : Nat} (unread : (buffer.fill i xs).unread j = true) :
    i ≤ j ∧ j < i + xs.length ∨ buffer.unread j = true := by
  induction xs generalizing buffer i with
  | nil => exact .inr unread
  | cons x xs induction =>
      rw [List.length_cons]
      rcases induction (buffer.write i x) (i + 1) unread with inside | earlier
      · exact .inl (by omega)
      · have updated : Function.update buffer.unread i true j = true := earlier
        by_cases same : j = i
        · exact .inl (by omega)
        · rw [Function.update_of_ne same] at updated
          exact .inr updated

theorem fill_kept (read : ∀ j, i ≤ j → j < i + xs.length → buffer.unread j = false) :
    (buffer.fill i xs).kept = buffer.kept := by
  induction xs generalizing buffer i with
  | nil => rfl
  | cons x xs induction =>
      rw [List.length_cons] at read
      rw [fill, induction]
      · have first := read i (Nat.le_refl i) (by omega)
        simp [write, first]
      · intro j low high
        have other : (buffer.write i x).unread j = buffer.unread j :=
          Function.update_of_ne (by omega) _ _
        rw [other]
        apply read <;> omega

end Buffer

namespace Internal

variable {sizes : Sizes}

theorem decrementFrom_eq (internal : Internal) (p k : Nat) :
    ∃ unread, internal.decrementFrom p k =
      { internal with
        buffer := { internal.buffer with unread := unread }
        calls := internal.calls ++ (slice internal.buffer.word p k).map Call.decrement } := by
  induction k generalizing internal p with
  | zero =>
      refine ⟨internal.buffer.unread, ?_⟩
      rw [decrementFrom, slice, List.map_nil, List.append_nil]
  | succ k induction =>
      obtain ⟨unread, same⟩ := induction { internal with
        buffer := internal.buffer.read p
        calls := internal.calls ++ [Call.decrement (internal.buffer.word p)] } (p + 1)
      refine ⟨unread, ?_⟩
      rw [decrementFrom, same, List.append_assoc]
      rfl

/-- Where the saved snapshot may be, and that nothing unread has been overwritten. -/
structure Fits (sizes : Sizes) (internal : Internal) : Prop where
  head : sizes.lastHead ≤ internal.lastUsed
  used : internal.lastUsed ≤ sizes.lastHead + sizes.stack
  top : internal.lastTop ≤ sizes.lastBottom
  deep : sizes.lastBottom ≤ internal.lastTop + sizes.limit
  kept : internal.buffer.kept = true

theorem fits_create (sizes : Sizes) (memory : Nat → Nat) :
    (create sizes memory).Fits sizes where
  head := Nat.le_refl _
  used := Nat.le_add_right _ _
  top := Nat.le_refl _
  deep := Nat.le_add_right _ _
  kept := rfl

def saved (sizes : Sizes) (internal : Internal) : List Nat :=
  internal.savedValues sizes ++ internal.savedWords sizes

/-- What an epoch of a fiber is to do: increments and then decrements, which change the count
of an object by the difference of its occurrences, with what is found as the saved snapshot,
besides what is saved already. -/
structure Passed (sizes : Sizes) (epoch : Epoch sizes) (internal after : Internal) : Prop where
  fits : after.Fits sizes
  calls : ∃ ups downs : List Nat, after.calls = ups.map Call.increment ++ downs.map Call.decrement ∧
    (∀ p ∈ ups, p ≠ 0 ∧ epoch.objects.fObjectFind p = p) ∧
    (∀ q ∈ downs, q ≠ 0 ∧ q ∈ internal.saved sizes) ∧
    ∀ object, object ≠ 0 → ups.count object + (internal.saved sizes).count object =
      downs.count object + (after.saved sizes).count object
  values : Looked epoch.objects (internal.savedValues sizes) epoch.values
    (after.savedValues sizes)
  words : Looked epoch.objects (internal.savedWords sizes) epoch.words (after.savedWords sizes)

end Internal

namespace Epoch

variable {sizes : Sizes} (epoch : Epoch sizes)

theorem values_le : epoch.values.length ≤ sizes.stack := by
  unfold values
  split
  · exact epoch.estack_le
  · exact Nat.zero_le _

theorem words_le : epoch.words.length ≤ sizes.limit := by
  unfold words
  split
  · exact epoch.native_le
  · exact Nat.zero_le _

end Epoch

/-- What `f_epoch_copy` leaves, the saved snapshot being unread. -/
structure Copied (sizes : Sizes) (epoch : Epoch sizes) (internal after : Internal) : Prop where
  used : after.used = epoch.values.length
  depth : after.depth = epoch.words.length
  lastUsed : after.lastUsed = internal.lastUsed
  lastTop : after.lastTop = internal.lastTop
  calls : after.calls = []
  values : slice after.buffer.word 0 epoch.values.length = epoch.values
  words : slice after.buffer.word (sizes.stackCopy - epoch.words.length) epoch.words.length =
    epoch.words
  saved : after.savedValues sizes = internal.savedValues sizes ∧
    after.savedWords sizes = internal.savedWords sizes
  unread : ∀ i, after.buffer.unread i = true → i < epoch.values.length ∨
    sizes.lastHead ≤ i ∧ i < internal.lastUsed ∨ internal.lastTop ≤ i ∧ i < sizes.lastBottom ∨
    sizes.stackCopy - epoch.words.length ≤ i
  kept : after.buffer.kept = true

theorem Internal.Fits.copied {sizes : Sizes} {internal : Internal} (fits : internal.Fits sizes)
    (epoch : Epoch sizes) :
    Copied sizes epoch internal (epoch.fEpochCopy (internal.enter sizes)) := by
  obtain ⟨head, used, top, deep, kept⟩ := fits
  have m_le := epoch.values_le
  have n_le := epoch.words_le
  have start : sizes.lastHead = sizes.stack := rfl
  have bottom : sizes.lastBottom = sizes.stack + sizes.stack + sizes.limit := rfl
  have copy : sizes.stackCopy = sizes.lastBottom + sizes.limit := rfl
  have between : ∀ i k, sizes.lastHead ≤ i → i + k ≤ sizes.lastBottom →
      slice (epoch.fEpochCopy (internal.enter sizes)).buffer.word i k =
        slice internal.buffer.word i k := by
    intro i k low high
    apply slice_congr
    intro j low' high'
    change ((Buffer.fill _ 0 epoch.values).fill _ epoch.words).word j = _
    rw [Buffer.fill_frame _ _ _ (.inl (by omega)), Buffer.fill_frame _ _ _ (.inr (by omega))]
    rfl
  have unread : ∀ i, (epoch.fEpochCopy (internal.enter sizes)).buffer.unread i = true →
      i < epoch.values.length ∨ sizes.lastHead ≤ i ∧ i < internal.lastUsed ∨
        internal.lastTop ≤ i ∧ i < sizes.lastBottom ∨
        sizes.stackCopy - epoch.words.length ≤ i := by
    intro i unread
    rcases Buffer.unread_of_fill _ _ _ unread with inside | unread
    · omega
    · rcases Buffer.unread_of_fill _ _ _ unread with inside | unread
      · omega
      · have earlier := of_decide_eq_true unread
        omega
  have lastUsed : (epoch.fEpochCopy (internal.enter sizes)).lastUsed = internal.lastUsed := rfl
  have lastTop : (epoch.fEpochCopy (internal.enter sizes)).lastTop = internal.lastTop := rfl
  constructor
  · rfl
  · rfl
  · rfl
  · rfl
  · rfl
  · refine Eq.trans ?_ (Buffer.fill_slice (internal.enter sizes).buffer epoch.values 0)
    apply slice_congr
    intro j low high
    exact Buffer.fill_frame _ _ _ (.inl (by omega))
  · exact Buffer.fill_slice _ _ _
  · exact ⟨between _ _ (Nat.le_refl _) (by omega), between _ _ (by omega) (by omega)⟩
  · exact unread
  · change ((Buffer.fill _ 0 epoch.values).fill _ epoch.words).kept = true
    rw [Buffer.fill_kept, Buffer.fill_kept]
    · exact kept
    · intro j low high
      apply decide_eq_false
      omega
    · intro j low high
      apply Bool.eq_false_iff.mpr
      intro unread
      rcases Buffer.unread_of_fill _ _ _ unread with inside | unread
      · omega
      · have earlier := of_decide_eq_true unread
        omega

/-- What `f_epoch_scan` leaves: the calls so far and those that are to come. -/
structure ScanSpec (sizes : Sizes) (epoch : Epoch sizes) (internal after : Internal) : Prop where
  lastUsed : after.lastUsed = sizes.lastHead + epoch.values.length
  lastTop : after.lastTop = sizes.lastBottom - epoch.words.length
  kept : after.buffer.kept = true
  moves : ∃ moves moves' : List Moves,
    after.calls = (Moves.ups moves ++ Moves.ups moves').map Call.increment ∧
    slice after.buffer.word 0 after.estackDecrements = Moves.downs moves ∧
    slice after.buffer.word sizes.lastBottom (after.stackDecrements - sizes.lastBottom) =
      Moves.downs moves' ∧
    Delta epoch.objects epoch.values (internal.savedValues sizes) moves
      (after.savedValues sizes) ∧
    Delta epoch.objects epoch.words (internal.savedWords sizes) moves' (after.savedWords sizes)

section

variable {sizes : Sizes} {epoch : Epoch sizes} {internal copied : Internal}

theorem Copied.values_scanned (fits : internal.Fits sizes)
    (made : Copied sizes epoch internal copied) {entry mid : Scan}
    (buffer : entry.buffer = copied.buffer) (p0 : entry.p0 = 0) (p1 : entry.p1 = sizes.lastHead)
    (decrements : entry.decrements = 0)
    (scanned : entry.values epoch.objects (sizes.lastHead + epoch.values.length)
      internal.lastUsed = mid) :
    Phase epoch.objects epoch.values.length
      (max epoch.values.length (internal.lastUsed - sizes.lastHead))
      epoch.values (internal.savedValues sizes)
      (slice mid.buffer.word sizes.lastHead epoch.values.length) entry mid := by
  obtain ⟨head, used, top, deep, kept⟩ := fits
  have m_le := epoch.values_le
  have n_le := epoch.words_le
  have start : sizes.lastHead = sizes.stack := rfl
  have bottom : sizes.lastBottom = sizes.stack + sizes.stack + sizes.limit := rfl
  have copy : sizes.stackCopy = sizes.lastBottom + sizes.limit := rfl
  have reached : internal.lastUsed =
      sizes.lastHead + (internal.lastUsed - sizes.lastHead) := by omega
  have phase := Sizes.values_phase epoch.objects epoch.values.length
    (internal.lastUsed - sizes.lastHead) p0 p1 decrements m_le (by omega) (by
      intro i place
      apply Bool.eq_false_iff.mpr
      intro unread
      rw [buffer] at unread
      have inside := made.unread i unread
      omega)
  rw [← reached, scanned] at phase
  have news : slice entry.buffer.word 0 epoch.values.length = epoch.values := by
    rw [buffer, made.values]
  have olds : slice entry.buffer.word sizes.lastHead (internal.lastUsed - sizes.lastHead) =
      internal.savedValues sizes := by
    rw [buffer, ← made.saved.1, Internal.savedValues, made.lastUsed]
  rw [news, olds] at phase
  exact phase

/-- The native stack is scanned, the value stack having been. -/
theorem Copied.words_scanned (fits : internal.Fits sizes)
    (made : Copied sizes epoch internal copied) {next last : Scan}
    (p0 : next.p0 = sizes.stackCopy - epoch.words.length)
    (decrements : next.decrements = sizes.lastBottom)
    (scanned : next.words epoch.objects (sizes.lastBottom - epoch.words.length) internal.lastTop
      sizes.lastBottom = last)
    (word : ∀ i m, sizes.stack + sizes.stack ≤ i →
      slice next.buffer.word i m = slice copied.buffer.word i m)
    (unread : ∀ i, sizes.stack + sizes.stack ≤ i → next.buffer.unread i = true →
      copied.buffer.unread i = true) :
    Phase epoch.objects epoch.words.length
      (max epoch.words.length (sizes.lastBottom - internal.lastTop))
      epoch.words (internal.savedWords sizes)
      (slice last.buffer.word (sizes.lastBottom - epoch.words.length) epoch.words.length)
      { next with p1 := min (sizes.lastBottom - epoch.words.length) internal.lastTop } last := by
  obtain ⟨head, used, top, deep, kept⟩ := fits
  have m_le := epoch.values_le
  have n_le := epoch.words_le
  have start : sizes.lastHead = sizes.stack := rfl
  have bottom : sizes.lastBottom = sizes.stack + sizes.stack + sizes.limit := rfl
  have copy : sizes.stackCopy = sizes.lastBottom + sizes.limit := rfl
  have reached : internal.lastTop =
      sizes.lastBottom - (sizes.lastBottom - internal.lastTop) := by omega
  have phase := Sizes.words_phase epoch.objects epoch.words.length
    (sizes.lastBottom - internal.lastTop) p0 decrements n_le (by omega) (by
      intro i place
      apply Bool.eq_false_iff.mpr
      intro left
      have inside := made.unread i (unread i (by omega) left)
      omega)
  rw [← reached, scanned] at phase
  have news : slice next.buffer.word (sizes.stackCopy - epoch.words.length)
      epoch.words.length = epoch.words := by
    rw [word _ _ (by omega), made.words]
  have olds : slice next.buffer.word internal.lastTop (sizes.lastBottom - internal.lastTop) =
      internal.savedWords sizes := by
    rw [word _ _ (by omega), ← made.saved.2, Internal.savedWords, made.lastTop]
  rw [news, olds] at phase
  exact phase

theorem Copied.scan (fits : internal.Fits sizes)
    (made : Copied sizes epoch internal copied) :
    ScanSpec sizes epoch internal (epoch.fEpochScan copied) := by
  have m_le := epoch.values_le
  have n_le := epoch.words_le
  have start : sizes.lastHead = sizes.stack := rfl
  have bottom : sizes.lastBottom = sizes.stack + sizes.stack + sizes.limit := rfl
  obtain ⟨mid, mid_eq⟩ : ∃ mid, Scan.values epoch.objects (sizes.lastHead + epoch.values.length)
    internal.lastUsed ⟨copied.buffer, 0, sizes.lastHead, 0, copied.calls⟩ = mid := ⟨_, rfl⟩
  have first := made.values_scanned fits rfl rfl rfl rfl mid_eq
  have positions := first.positions
  have upper : ∀ i m, sizes.stack + sizes.stack ≤ i →
      slice mid.buffer.word i m = slice copied.buffer.word i m := by
    intro i m low
    have used := fits.used
    apply first.frame
    · exact .inr (by simp only; omega)
    · exact .inr (by simp only at positions; omega)
  have unread : ∀ i, sizes.stack + sizes.stack ≤ i → mid.buffer.unread i = true →
      copied.buffer.unread i = true := by
    intro i low left
    have used := fits.used
    rcases first.unread left with inside | inside | ⟨unread, _⟩
    · simp only at inside
      omega
    · simp only at inside positions
      omega
    · exact unread
  obtain ⟨last, last_eq⟩ : ∃ last, Scan.words epoch.objects
    (sizes.lastBottom - epoch.words.length) internal.lastTop sizes.lastBottom { mid with
      p0 := sizes.stackCopy - epoch.words.length
      decrements := sizes.lastBottom } = last := ⟨_, rfl⟩
  have second := made.words_scanned fits rfl rfl last_eq upper unread
  have lower : ∀ i m, i + m ≤ sizes.stack + sizes.stack →
      slice last.buffer.word i m = slice mid.buffer.word i m := by
    intro i m high
    have deep := fits.deep
    apply second.frame
    · exact .inl (by simp only; omega)
    · exact .inl (by simp only; omega)
  have whole : epoch.fEpochScan copied = { copied with
      buffer := last.buffer
      lastUsed := sizes.lastHead + epoch.values.length
      lastTop := sizes.lastBottom - epoch.words.length
      estackDecrements := mid.decrements
      stackDecrements := last.decrements
      calls := last.calls } := by
    rw [Epoch.fEpochScan, made.used, made.depth, made.lastUsed, made.lastTop, mid_eq, last_eq]
  obtain ⟨moves, effect, delta⟩ := first
  obtain ⟨moves', effect', delta'⟩ := second
  rw [whole]
  constructor
  · rfl
  · rfl
  · exact effect'.kept.trans (effect.kept.trans made.kept)
  · refine ⟨moves, moves', ?_, ?_, ?_, ?_, ?_⟩
    · have calls : last.calls = mid.calls ++ (Moves.ups moves').map Call.increment :=
        effect'.calls
      have calls' : mid.calls = copied.calls ++ (Moves.ups moves).map Call.increment :=
        effect.calls
      change last.calls = _
      rw [calls, calls', made.calls, List.nil_append, List.map_append]
    · have pending : slice mid.buffer.word 0 (Moves.downs moves).length = Moves.downs moves :=
        effect.pending
      have count : mid.decrements = 0 + (Moves.downs moves).length := effect.decrements
      change slice last.buffer.word 0 mid.decrements = _
      have used := fits.used
      rw [Nat.zero_add] at count
      simp only at positions
      rw [lower _ _ (by omega), count, pending]
    · have pending : slice last.buffer.word sizes.lastBottom (Moves.downs moves').length =
          Moves.downs moves' := effect'.pending
      have place : last.decrements = sizes.lastBottom + (Moves.downs moves').length :=
        effect'.decrements
      change slice last.buffer.word sizes.lastBottom (last.decrements - sizes.lastBottom) = _
      rw [place, Nat.add_sub_cancel_left, pending]
    · have saved := lower sizes.lastHead epoch.values.length (by omega)
      rw [← saved] at delta
      unfold Internal.savedValues
      simp only [Nat.add_sub_cancel_left]
      exact delta
    · have length : sizes.lastBottom - (sizes.lastBottom - epoch.words.length) =
          epoch.words.length := by omega
      unfold Internal.savedWords
      simp only [length]
      exact delta'

end

theorem Internal.Fits.run {sizes : Sizes} {internal : Internal} (fits : internal.Fits sizes)
    (epoch : Epoch sizes) : Passed sizes epoch internal (internal.run epoch) := by
  have m_le := epoch.values_le
  have n_le := epoch.words_le
  have bottom : sizes.lastBottom = sizes.lastHead + sizes.stack + sizes.limit := rfl
  have scan := (fits.copied epoch).scan fits
  unfold Internal.run
  generalize epoch.fEpochScan (epoch.fEpochCopy (internal.enter sizes)) = mid at scan ⊢
  obtain ⟨moves, moves', calls, values, words, delta, delta'⟩ := scan.moves
  have lastUsed := scan.lastUsed
  have lastTop := scan.lastTop
  obtain ⟨unread, first⟩ := mid.decrementFrom_eq 0 mid.estackDecrements
  obtain ⟨unread', second⟩ := (mid.decrementFrom 0 mid.estackDecrements).decrementFrom_eq
    sizes.lastBottom (mid.stackDecrements - sizes.lastBottom)
  rw [first] at second
  have whole : mid.fEpochDecrement sizes = { mid with
      buffer := { mid.buffer with unread := unread' }
      calls := (Moves.ups moves ++ Moves.ups moves').map Call.increment ++
        (Moves.downs moves ++ Moves.downs moves').map Call.decrement } := by
    unfold Internal.fEpochDecrement
    rw [first]
    simp only
    rw [second]
    simp only [calls, values, words, List.map_append, List.append_assoc]
  rw [whole]
  constructor
  · constructor
    · simp only
      omega
    · simp only
      omega
    · simp only
      omega
    · simp only
      omega
    · exact scan.kept
  · have both := delta.append delta'
    rw [← Moves.ups_append, ← Moves.downs_append]
    exact ⟨_, _, rfl, both.ups, both.downs, both.count⟩
  · exact delta.looked
  · exact delta'.looked

/-! ### The counts -/

/-- The collector thread makes the calls of an epoch, and releases the objects whose counts
come to zero, with the references that these let go; the mutators go on meanwhile. -/
inductive Performs : Collector.State Nat → List Call → List Nat → Collector.State Nat → Prop
  | done (state : Collector.State Nat) : Performs state [] [] state
  | increment {state mid final : Collector.State Nat} {object : Nat} {calls : List Call}
      {references : List Nat} (taken : Collector.step state (.increment object) = some mid)
      (rest : Performs mid calls references final) :
      Performs state (.increment object :: calls) references final
  | decrement {state mid final : Collector.State Nat} {object : Nat} {calls : List Call}
      {references : List Nat} (taken : Collector.step state (.decrement object) = some mid)
      (rest : Performs mid calls references final) :
      Performs state (.decrement object :: calls) references final
  | release {state mid final : Collector.State Nat} {object : Nat} {stack report : List Nat}
      {calls : List Call} {references : List Nat}
      (releases : state.control = .release object stack .epoch)
      (taken : Collector.step state (.tick report) = some mid)
      (rest : Performs mid calls references final) :
      Performs state calls (report ++ references) final
  | allocate {state mid final : Collector.State Nat} {object : Nat} {calls : List Call}
      {references : List Nat} (taken : Collector.step state (.allocate object) = some mid)
      (rest : Performs mid calls references final) : Performs state calls references final
  | revive {state mid final : Collector.State Nat} {object : Nat} {calls : List Call}
      {references : List Nat} (taken : Collector.step state (.revive object) = some mid)
      (rest : Performs mid calls references final) : Performs state calls references final

section

open Collector

variable (heap : Heap Nat) (object other : Nat)

theorem count_increment :
    (heap.increment other).count object =
      if object = other then Word.up (heap.count object) else heap.count object := by
  obtain ⟨next, previous, same⟩ := Heap.enlist_links
    ((heap.setCount other (Word.up (heap.count other))).paint other .black) other
  rw [Heap.increment, same]
  change Function.update heap.count other (Word.up (heap.count other)) object = _
  rw [Function.update_apply]
  split
  · rename_i equal
    rw [equal]
  · rfl

theorem count_lower :
    (heap.lower other).count object =
      if object = other then Word.down (heap.count object) else heap.count object := by
  obtain ⟨next, previous, color, same⟩ := heap.lower_links other
  rw [same]
  change Function.update heap.count other (Word.down (heap.count other)) object = _
  rw [Function.update_apply]
  split
  · rename_i equal
    rw [equal]
  · rfl

theorem freed_lower : (heap.lower other).freed = heap.freed := by
  obtain ⟨next, previous, color, same⟩ := heap.lower_links other
  rw [same]
  rfl

theorem freed_increment : (heap.increment other).freed = heap.freed := by
  obtain ⟨next, previous, same⟩ := Heap.enlist_links
    ((heap.setCount other (Word.up (heap.count other))).paint other .black) other
  rw [Heap.increment, same]
  rfl

theorem release_cases :
    (heap.release other).freed = other :: heap.freed ∨
      (heap.release other).freed = heap.freed ∧ (heap.release other).count = heap.count := by
  unfold Heap.release
  simp only
  split
  · exact .inl rfl
  · split
    · exact .inr ⟨rfl, rfl⟩
    · exact .inl rfl

theorem decrementPush_heap (walk : Walk Nat) :
    (walk.decrementPush other).heap = walk.heap.lower other := by
  unfold Walk.decrementPush
  simp only
  split <;> rfl

theorem count_decrementAll (report : List Nat) {walk after : Walk Nat}
    (lets : walk.decrementAll report = some after) : after.heap.freed = walk.heap.freed ∧
      (after.heap.count object + report.count object) % 2 ^ 64 =
        walk.heap.count object % 2 ^ 64 := by
  induction report generalizing walk with
  | nil =>
      obtain rfl := Option.some.inj lets
      exact ⟨rfl, rfl⟩
  | cons child report induction =>
      rw [Walk.decrementAll] at lets
      split at lets
      · rename_i counted
        obtain ⟨freed, count⟩ := induction lets
        rw [decrementPush_heap] at freed count
        rw [count_lower] at count
        refine ⟨freed.trans (freed_lower _ _), ?_⟩
        rw [List.count_cons]
        by_cases same : object = child
        · subst same
          have positive := counted.2
          rw [if_pos rfl, Word.down] at count
          rw [if_pos (beq_self_eq_true object)]
          omega
        · rw [if_neg same] at count
          have apart : (child == object) = false := beq_eq_false_iff_ne.mpr (Ne.symm same)
          rw [apart, if_neg Bool.false_ne_true]
          exact count
      · cases lets

theorem step_increment {state after : State Nat}
    (taken : step state (.increment other) = some after) :
    after.heap = state.heap.increment other := by
  unfold step at taken
  simp only at taken
  split at taken
  · split at taken
    · obtain rfl := Option.some.inj taken
      rfl
    · cases taken
  · cases taken

theorem step_decrement {state after : State Nat}
    (taken : step state (.decrement other) = some after) :
    after.heap = state.heap.lower other ∧ state.heap.count other > 0 := by
  unfold step at taken
  simp only at taken
  split at taken
  · split at taken
    · rename_i counted
      split at taken
      · obtain rfl := Option.some.inj taken
        exact ⟨rfl, counted.2⟩
      · obtain rfl := Option.some.inj taken
        exact ⟨rfl, counted.2⟩
    · cases taken
  · cases taken

theorem step_release {state after : State Nat} {stack report : List Nat} {back : Back Nat}
    (releases : state.control = .release other stack back)
    (taken : step state (.tick report) = some after) :
    ∃ walk, Walk.decrementAll ⟨state.heap, stack⟩ report = some walk ∧
      after.heap = walk.heap.release other := by
  change state.tick report = some after at taken
  unfold State.tick at taken
  rw [releases] at taken
  simp only [Option.bind_eq_bind, Option.bind_eq_some_iff] at taken
  obtain ⟨_, _, walk, lets, rest⟩ := taken
  refine ⟨walk, lets, ?_⟩
  split at rest
  · obtain rfl := Option.some.inj rest
    cases back <;> rfl
  · obtain rfl := Option.some.inj rest
    rfl

theorem step_allocate {state after : State Nat}
    (taken : step state (.allocate other) = some after) :
    after.heap.count = state.heap.count ∧ after.heap.freed = state.heap.freed := by
  unfold step at taken
  simp only at taken
  split at taken
  · cases taken
  · obtain rfl := Option.some.inj taken
    exact ⟨rfl, rfl⟩

theorem step_revive {state after : State Nat} (taken : step state (.revive other) = some after) :
    after.heap.count = state.heap.count ∧ after.heap.freed = state.heap.freed := by
  unfold step at taken
  simp only at taken
  split at taken
  · obtain rfl := Option.some.inj taken
    exact ⟨rfl, rfl⟩
  · cases taken

end

def ups (calls : List Call) (object : Nat) : Nat := calls.count (.increment object)

def downs (calls : List Call) (object : Nat) : Nat := calls.count (.decrement object)

/-- What the calls and the releases make of the counts of the objects that stay. -/
theorem Performs.count {state final : Collector.State Nat} {calls : List Call}
    {references : List Nat} (performs : Performs state calls references final) (object : Nat) :
    state.heap.freed.count object ≤ final.heap.freed.count object ∧
      (final.heap.freed.count object = state.heap.freed.count object →
        (final.heap.count object + downs calls object + references.count object) % 2 ^ 64 =
          (state.heap.count object + ups calls object) % 2 ^ 64) := by
  induction performs with
  | done state => exact ⟨Nat.le_refl _, fun _ => rfl⟩
  | @increment state mid final other calls references taken rest induction =>
      obtain ⟨grows, count⟩ := induction
      have heap := step_increment other taken
      rw [heap, freed_increment] at grows count
      refine ⟨grows, fun same => ?_⟩
      have count := count same
      rw [count_increment] at count
      unfold ups downs at count ⊢
      rw [List.count_cons, List.count_cons]
      by_cases equal : object = other
      · subst equal
        simp [Collector.Word.up] at count ⊢
        omega
      · simp [equal, Ne.symm equal] at count ⊢
        omega
  | @decrement state mid final other calls references taken rest induction =>
      obtain ⟨grows, count⟩ := induction
      obtain ⟨heap, positive⟩ := step_decrement other taken
      rw [heap, freed_lower] at grows count
      refine ⟨grows, fun same => ?_⟩
      have count := count same
      rw [count_lower] at count
      unfold ups downs at count ⊢
      rw [List.count_cons, List.count_cons]
      by_cases equal : object = other
      · subst equal
        simp [Collector.Word.down] at count ⊢
        omega
      · simp [equal, Ne.symm equal] at count ⊢
        omega
  | @release state mid final other stack report calls references releases taken rest induction =>
      obtain ⟨grows, count⟩ := induction
      obtain ⟨walk, lets, heap⟩ := step_release other releases taken
      obtain ⟨freed, report_count⟩ := count_decrementAll object report lets
      simp only at freed report_count
      rw [heap] at grows count
      rw [List.count_append]
      rcases release_cases walk.heap other with frees | ⟨kept, counts⟩
      · rw [frees, freed, List.count_cons] at grows count
        refine ⟨by omega, fun same => ?_⟩
        by_cases equal : object = other
        · rw [equal, if_pos (beq_self_eq_true other)] at grows
          rw [equal] at same
          omega
        · have apart : (other == object) = false := beq_eq_false_iff_ne.mpr (Ne.symm equal)
          have count := count (by rw [apart, if_neg Bool.false_ne_true]; exact same)
          rw [(walk.heap.release_others equal).2] at count
          omega
      · rw [kept, freed] at grows count
        refine ⟨grows, fun same => ?_⟩
        have count := count same
        rw [counts] at count
        omega
  | allocate taken rest induction =>
      obtain ⟨counts, freed⟩ := step_allocate _ taken
      rw [counts, freed] at induction
      exact induction
  | revive taken rest induction =>
      obtain ⟨counts, freed⟩ := step_revive _ taken
      rw [counts, freed] at induction
      exact induction

theorem ups_calls (first second : List Nat) (object : Nat) :
    ups (first.map Call.increment ++ second.map Call.decrement) object = first.count object := by
  have injective : Function.Injective Call.increment := fun _ _ => Call.increment.inj
  have none_ : (second.map Call.decrement).count (.increment object) = 0 := by
    rw [List.count_eq_zero]
    simp
  rw [ups, List.count_append, none_, List.count_map_of_injective _ _ injective, Nat.add_zero]

theorem downs_calls (first second : List Nat) (object : Nat) :
    downs (first.map Call.increment ++ second.map Call.decrement) object =
      second.count object := by
  have injective : Function.Injective Call.decrement := fun _ _ => Call.decrement.inj
  have none_ : (first.map Call.increment).count (.decrement object) = 0 := by
    rw [List.count_eq_zero]
    simp
  rw [downs, List.count_append, none_, List.count_map_of_injective _ _ injective, Nat.zero_add]

/-- The counts of the live objects cover the references from the fields of some of them, and
those that are still to be let go. -/
structure Covered (fields : Nat → List Nat) (objects referrers : Finset Nat) (owed : List Nat)
    (heap : Collector.Heap Nat) : Prop where
  live : ∀ object, heap.live object = true ↔ object ∈ objects
  inside : ∀ object ∈ owed, object ∈ objects
  count : ∀ object ∈ objects,
    References.refs fields referrers object + owed.count object ≤ heap.count object
  bound : ∀ object ∈ objects, heap.count object < 2 ^ 64

section

open Collector

variable {fields : Nat → List Nat} {objects referrers : Finset Nat} {owed : List Nat} {heap : Heap Nat}

theorem live_lower (object other : Nat) : (heap.lower other).live object = heap.live object := by
  obtain ⟨next, previous, color, same⟩ := heap.lower_links other
  rw [same]
  rfl

theorem live_increment (object other : Nat) :
    (heap.increment other).live object = heap.live object := by
  obtain ⟨next, previous, same⟩ := Heap.enlist_links
    ((heap.setCount other (Collector.Word.up (heap.count other))).paint other .black) other
  rw [Heap.increment, same]
  rfl

theorem live_release {object other : Nat} :
    (heap.release other).live object = true ↔ object ≠ other ∧ heap.live object = true := by
  have typed : (heap.release other).typed = Function.update heap.typed other false := by
    unfold Heap.release
    simp only
    split
    · rfl
    · split <;> rfl
  by_cases same : object = other
  · subst same
    simp [Heap.live, typed]
  · have kept := (heap.release_others same).1
    simp [Heap.live, typed, kept, same]

theorem Covered.lower {object : Nat} (covered : Covered fields objects referrers (object :: owed) heap) :
    heap.live object = true ∧ heap.count object > 0 ∧
      Covered fields objects referrers owed (heap.lower object) := by
  have member := covered.inside object List.mem_cons_self
  have enough := covered.count object member
  have bound := covered.bound object member
  rw [List.count_cons_self] at enough
  refine ⟨(covered.live object).mpr member, by omega, ?_, ?_, ?_, ?_⟩
  · intro other
    rw [live_lower]
    exact covered.live other
  · exact fun other owes => covered.inside other (List.mem_cons_of_mem _ owes)
  · intro other inside
    rw [count_lower]
    split
    · rename_i same
      subst same
      rw [Collector.Word.down]
      omega
    · rename_i different
      have others := covered.count other inside
      rw [List.count_cons_of_ne (Ne.symm different)] at others
      exact others
  · intro other inside
    rw [count_lower]
    split
    · exact Nat.mod_lt _ (by decide)
    · exact covered.bound other inside

/-- The references that an object lets go: what comes to zero is put to the stack once. -/
theorem Covered.decrementAll (report : List Nat) {stack : List Nat}
    (covered : Covered fields objects referrers (report ++ owed) heap) (nodup : stack.Nodup)
    (zero : ∀ object ∈ stack, object ∈ objects ∧ heap.count object = 0) :
    ∃ after, Walk.decrementAll ⟨heap, stack⟩ report = some after ∧
      Covered fields objects referrers owed after.heap ∧ after.stack.Nodup ∧
      (∀ object ∈ after.stack, object ∈ objects ∧ after.heap.count object = 0) ∧
      ∀ object ∈ after.stack, object ∈ stack ∨ object ∈ report := by
  induction report generalizing heap stack with
  | nil => exact ⟨_, rfl, covered, nodup, zero, fun _ => .inl⟩
  | cons child report induction =>
      obtain ⟨alive, positive, lowered⟩ := covered.lower
      have member := (covered.live child).mp alive
      rw [Walk.decrementAll, if_pos ⟨alive, positive⟩]
      have fresh : child ∉ stack := fun stacked => by
        rw [(zero child stacked).2] at positive
        exact Nat.lt_irrefl 0 positive
      have counts : ∀ object ∈ stack, object ∈ objects ∧ (heap.lower child).count object = 0 := by
        intro object stacked
        have different : object ≠ child := fun same => fresh (same ▸ stacked)
        rw [count_lower, if_neg different]
        exact zero object stacked
      rw [Walk.decrementPush]
      simp only
      split
      · obtain ⟨after, lets, covered', nodup', zero', stacked⟩ := induction lowered nodup counts
        exact ⟨after, lets, covered', nodup', zero', fun object member =>
          (stacked object member).imp_right (List.mem_cons_of_mem _)⟩
      · rename_i none_
        have nodup' : (child :: stack).Nodup := List.nodup_cons.mpr ⟨fresh, nodup⟩
        have zero' : ∀ object ∈ child :: stack,
            object ∈ objects ∧ (heap.lower child).count object = 0 := by
          intro object stacked
          rcases List.mem_cons.mp stacked with rfl | stacked
          · exact ⟨member, Nat.eq_zero_of_not_pos none_⟩
          · exact counts object stacked
        obtain ⟨after, lets, covered', nodup'', zero'', stacked⟩ := induction lowered nodup' zero'
        refine ⟨after, lets, covered', nodup'', zero'', fun object member => ?_⟩
        rcases stacked object member with stacked | reported
        · rcases List.mem_cons.mp stacked with rfl | stacked
          · exact .inr List.mem_cons_self
          · exact .inl stacked
        · exact .inr (List.mem_cons_of_mem _ reported)

/-- What has come to zero is released, and what that makes come to zero, until nothing is left
on the stack. -/
theorem Covered.releases (closed : References.Closed fields objects)
    (covered : Covered fields objects objects owed heap) {object : Nat} {stack : List Nat}
    (nodup : (object :: stack).Nodup)
    (zero : ∀ other ∈ object :: stack, other ∈ objects ∧ heap.count other = 0) (cycles : List Nat)
    (garbage : Option Nat) :
    ∃ references mid objects', mid.control = .epoch ∧ References.Closed fields objects' ∧
      Covered fields objects' objects' owed mid.heap ∧
      ∀ calls references' final, Performs mid calls references' final →
        Performs ⟨heap, cycles, garbage, .release object stack .epoch⟩ calls
          (references ++ references') final := by
  induction size : objects.card using Nat.strong_induction_on
    generalizing objects heap object stack with
  | _ size' induction =>
    obtain ⟨member, none_⟩ := zero object List.mem_cons_self
    have unowed : object ∉ owed ∧ ∀ other ∈ objects, object ∉ fields other := by
      have enough := covered.count object member
      rw [none_] at enough
      constructor
      · intro owes
        have some_ := List.count_pos_iff.mpr owes
        omega
      · intro other inside field
        have some_ := References.refs_pos inside field
        omega
    have owes : Covered fields objects (objects.erase object) (fields object ++ owed) heap := by
      refine ⟨covered.live, ?_, ?_, covered.bound⟩
      · intro other owes
        exact (List.mem_append.mp owes).elim (closed object member other) (covered.inside other)
      · intro other inside
        have enough := covered.count other inside
        rw [References.refs_erase member] at enough
        rw [List.count_append]
        omega
    obtain ⟨walk, lets, covered', nodup', zero', stacked⟩ :=
      owes.decrementAll (fields object) (List.nodup_cons.mp nodup).2
        fun other member => zero other (List.mem_cons_of_mem _ member)
    have away : object ∉ walk.stack := by
      intro stacked'
      rcases stacked object stacked' with old | field
      · exact (List.nodup_cons.mp nodup).1 old
      · exact unowed.2 object member field
    have closed' : References.Closed fields (objects.erase object) := by
      intro other inside child field
      have inside' := Finset.mem_of_mem_erase inside
      refine Finset.mem_erase.mpr ⟨?_, closed other inside' child field⟩
      rintro rfl
      exact unowed.2 other inside' field
    have others : ∀ other, other ≠ object →
        (walk.heap.release object).count other = walk.heap.count other :=
      fun other different => (walk.heap.release_others different).2
    have released : Covered fields (objects.erase object) (objects.erase object) owed
        (walk.heap.release object) := by
      refine ⟨?_, ?_, ?_, ?_⟩
      · intro other
        rw [live_release, covered'.live, Finset.mem_erase]
      · intro other owes
        exact Finset.mem_erase.mpr ⟨fun same => unowed.1 (same ▸ owes), covered'.inside other owes⟩
      · intro other inside
        rw [others other (Finset.ne_of_mem_erase inside)]
        exact covered'.count other (Finset.mem_of_mem_erase inside)
      · intro other inside
        rw [others other (Finset.ne_of_mem_erase inside)]
        exact covered'.bound other (Finset.mem_of_mem_erase inside)
    have typed : heap.typed object = true := by
      have alive := (covered.live object).mpr member
      rw [Heap.live, Bool.and_eq_true] at alive
      exact alive.2
    cases left : walk.stack with
    | nil =>
        have taken : step ⟨heap, cycles, garbage, .release object stack .epoch⟩
            (.tick (fields object)) =
              some ⟨walk.heap.release object, cycles, garbage, .epoch⟩ := by
          simp only [step, State.tick, typed, guard, if_true, lets, left, Option.bind_eq_bind,
            Option.pure_def, Option.bind_some]
          rfl
        exact ⟨fields object, _, objects.erase object, rfl, closed', released,
          fun calls references' final performs => .release rfl taken performs⟩
    | cons next rest =>
        have taken : step ⟨heap, cycles, garbage, .release object stack .epoch⟩
            (.tick (fields object)) =
              some ⟨walk.heap.release object, cycles, garbage, .release next rest .epoch⟩ := by
          simp only [step, State.tick, typed, guard, if_true, lets, left, Option.bind_eq_bind,
            Option.pure_def, Option.bind_some]
        rw [left] at nodup' zero' away
        have smaller : (objects.erase object).card < size' := by
          rw [← size]
          exact Finset.card_erase_lt_of_mem member
        have zero'' : ∀ other ∈ next :: rest, other ∈ objects.erase object ∧
            (walk.heap.release object).count other = 0 := by
          intro other stacked
          have different : other ≠ object := fun same => away (same ▸ stacked)
          obtain ⟨inside, none_⟩ := zero' other stacked
          exact ⟨Finset.mem_erase.mpr ⟨different, inside⟩, (others other different).trans none_⟩
        obtain ⟨references, mid, objects', control, closed'', last, performs⟩ :=
          induction _ smaller closed' released nodup' zero'' rfl
        refine ⟨fields object ++ references, mid, objects', control, closed'', last, ?_⟩
        intro calls references' final more
        rw [List.append_assoc]
        exact .release rfl taken (performs calls references' final more)

theorem Covered.decrements (closed : References.Closed fields objects) {saved : List Nat}
    (covered : Covered fields objects objects (owed ++ saved) heap) (cycles : List Nat)
    (garbage : Option Nat) : ∃ references final objects',
      Performs ⟨heap, cycles, garbage, .epoch⟩ (owed.map Call.decrement) references final ∧
      final.control = .epoch ∧ References.Closed fields objects' ∧
      Covered fields objects' objects' saved final.heap := by
  induction owed generalizing objects heap cycles garbage with
  | nil => exact ⟨[], _, objects, .done _, rfl, closed, covered⟩
  | cons object owed induction =>
      obtain ⟨alive, positive, lowered⟩ := covered.lower
      by_cases more : (heap.lower object).count object > 0
      · obtain ⟨references, final, objects', performs, still⟩ :=
          induction closed lowered cycles garbage
        refine ⟨references, final, objects', .decrement ?_ performs, still⟩
        simp only [step, alive, positive, more, and_self, if_true]
      · obtain ⟨references, mid, objects', back, closed', last, performs⟩ :=
          lowered.releases closed (List.nodup_singleton object) (by
            intro other member
            rw [List.mem_singleton.mp member]
            exact ⟨(covered.live object).mp alive, Nat.eq_zero_of_not_pos more⟩) cycles garbage
        obtain ⟨heap', cycles', garbage', _⟩ := mid
        cases back
        obtain ⟨references', final, objects'', rest, still⟩ :=
          induction closed' last cycles' garbage'
        refine ⟨references ++ references', final, objects'',
          .decrement ?_ (performs _ _ _ rest), still⟩
        simp only [step, alive, positive, more, and_self, if_true, if_false]

/-- The calls of an epoch are made, increments and then decrements, in a heap whose counts will
cover the references and what is saved. -/
theorem performs_calls (closed : References.Closed fields objects) (ups downs : List Nat)
    {saved : List Nat} (live : ∀ object, heap.live object = true ↔ object ∈ objects)
    (inside : ∀ object, object ∈ ups ∨ object ∈ downs ++ saved → object ∈ objects)
    (enough : ∀ object ∈ objects, References.refs fields objects object +
      (downs ++ saved).count object ≤ heap.count object + ups.count object)
    (bound : ∀ object ∈ objects, heap.count object + ups.count object < 2 ^ 64)
    (cycles : List Nat) (garbage : Option Nat) : ∃ references final objects',
      Performs ⟨heap, cycles, garbage, .epoch⟩
        (ups.map Call.increment ++ downs.map Call.decrement) references final ∧
      final.control = .epoch ∧ References.Closed fields objects' ∧
      Covered fields objects' objects' saved final.heap := by
  induction ups generalizing heap with
  | nil =>
      have covered : Covered fields objects objects (downs ++ saved) heap :=
        ⟨live, fun object owes => inside object (.inr owes), enough, bound⟩
      exact covered.decrements closed cycles garbage
  | cons object ups induction =>
      have member := inside object (.inl List.mem_cons_self)
      have counts : ∀ other ∈ objects, (heap.increment object).count other + ups.count other =
          heap.count other + (object :: ups).count other := by
        intro other inside
        have bound := bound other inside
        rw [count_increment]
        by_cases same : other = object
        · subst same
          rw [List.count_cons_self] at bound ⊢
          rw [if_pos rfl, Collector.Word.up]
          omega
        · rw [if_neg same, List.count_cons_of_ne (Ne.symm same)]
      obtain ⟨references, final, objects', performs, still⟩ := induction
        (fun other => by rw [live_increment]; exact live other)
        (fun other either => inside other (either.imp_left (List.mem_cons_of_mem _)))
        (fun other inside => counts other inside ▸ enough other inside)
        (fun other inside => counts other inside ▸ bound other inside)
      refine ⟨references, final, objects', .increment ?_ performs, still⟩
      simp only [step, (live object).mpr member, if_true]

end

theorem fits_run {sizes : Sizes} (memory : Nat → Nat) (epochs : List (Epoch sizes)) :
    (epochs.foldl Internal.run (Internal.create sizes memory)).Fits sizes := by
  have start := Internal.fits_create sizes memory
  generalize Internal.create sizes memory = internal at start ⊢
  induction epochs generalizing internal with
  | nil => exact start
  | cons epoch epochs induction => exact induction _ (start.run epoch).fits

/-- An epoch that starts in a heap whose counts cover the references from the fields of live
objects and from the saved snapshot. -/
structure Starts (sizes : Sizes) (internal : Internal) (epoch : Epoch sizes)
    (heap : Collector.Heap Nat) (fields : Nat → List Nat) (objects : Finset Nat) : Prop where
  found : epoch.objects.found = heap.allocated ∧ epoch.objects.typed = heap.typed
  aligned : ∀ object ∈ objects, object % epoch.objects.unit = 0
  closed : References.Closed fields objects
  covered : Covered fields objects objects ((internal.saved sizes).filter (· ≠ 0)) heap
  bound : ∀ object ∈ objects,
    heap.count object + (internal.run epoch).calls.length < 2 ^ 64

section

variable {sizes : Sizes} {internal : Internal} {epoch : Epoch sizes} {heap : Collector.Heap Nat}
variable {fields : Nat → List Nat} {objects : Finset Nat}

theorem Objects.fObjectFind_zero (objects : Objects) : objects.fObjectFind 0 = 0 := by
  simp [Objects.fObjectFind]

/-- What is saved is still found: its count keeps it. -/
theorem Starts.still (starts : Starts sizes internal epoch heap fields objects) :
    ∀ q ∈ internal.saved sizes, epoch.objects.fObjectFind q = q := by
  intro q saved
  by_cases real : q = 0
  · rw [real]
    exact epoch.objects.fObjectFind_zero
  · have inside := starts.covered.inside q (List.mem_filter.mpr ⟨saved, decide_eq_true real⟩)
    have live := (starts.covered.live q).mpr inside
    rw [Collector.Heap.live, ← starts.found.1, ← starts.found.2] at live
    have aligned : ¬q % epoch.objects.unit ≠ 0 := not_not.mpr (starts.aligned q inside)
    rw [Objects.fObjectFind, if_neg aligned, if_pos live]

theorem Starts.performs (starts : Starts sizes internal epoch heap fields objects)
    (fits : internal.Fits sizes) (cycles : List Nat) (garbage : Option Nat) :
    ∃ references final objects',
      Performs ⟨heap, cycles, garbage, .epoch⟩ (internal.run epoch).calls references final ∧
      final.control = .epoch ∧ References.Closed fields objects' ∧
      Covered fields objects' objects' (((internal.run epoch).saved sizes).filter (· ≠ 0))
        final.heap := by
  obtain ⟨ups, downs, calls, rises, falls, count⟩ := (fits.run epoch).calls
  have covered := starts.covered
  have bound := starts.bound
  rw [calls] at bound ⊢
  rw [List.length_append, List.length_map, List.length_map] at bound
  have raised : ∀ object ∈ ups, object ∈ objects := by
    intro object up
    obtain ⟨real, found⟩ := rises object up
    rw [← covered.live, Collector.Heap.live, ← starts.found.1, ← starts.found.2]
    by_contra other
    unfold Objects.fObjectFind at found
    rw [if_neg other, ite_self] at found
    exact real found.symm
  have held : ∀ object, object ≠ 0 → object ∈ internal.saved sizes → object ∈ objects :=
    fun object real saved =>
      covered.inside object (List.mem_filter.mpr ⟨saved, decide_eq_true real⟩)
  apply performs_calls starts.closed ups downs covered.live
  · intro object called
    rcases called with up | owed
    · exact raised object up
    · rcases List.mem_append.mp owed with down | saved
      · exact held object (falls object down).1 (falls object down).2
      · obtain ⟨saved, real⟩ := List.mem_filter.mp saved
        have real := of_decide_eq_true real
        -- what has come into the snapshot has been incremented
        have balance := count object real
        have some_ := List.count_pos_iff.mpr saved
        by_cases up : object ∈ ups
        · exact raised object up
        · rw [List.count_eq_zero.mpr up] at balance
          exact held object real (List.count_pos_iff.mp (by omega))
  · intro object inside
    have enough := covered.count object inside
    rw [List.count_append]
    by_cases real : object = 0
    · subst real
      have none_ : downs.count 0 = 0 :=
        List.count_eq_zero.mpr fun down => (falls 0 down).1 rfl
      have saved : (((internal.run epoch).saved sizes).filter (· ≠ 0)).count 0 = 0 :=
        List.count_eq_zero.mpr fun saved => of_decide_eq_true (List.mem_filter.mp saved).2 rfl
      omega
    · rw [Delta.count_filter real] at enough ⊢
      have balance := count object real
      omega
  · intro object inside
    have few : ups.count object ≤ ups.length := List.count_le_length
    have room := bound object inside
    omega

end

/-- An epoch of a fiber: its calls are increments and then decrements, nothing unread is
overwritten, and what is found is the next saved snapshot, besides what is saved already. Where
the counts cover the references, what is saved already is found too, the calls are all made, and
the counts cover the references then. The calls change the counts of the objects by the
difference of their occurrences in the saved snapshots, besides the references that are let go
by the objects they release. -/
theorem snapshot_delta {sizes : Sizes} (memory : Nat → Nat) (epochs : List (Epoch sizes))
    (epoch : Epoch sizes) :
    let internal := epochs.foldl Internal.run (Internal.create sizes memory)
    let after := internal.run epoch
    after.buffer.kept = true ∧
    (∃ ups downs : List Nat, after.calls = ups.map Call.increment ++ downs.map Call.decrement) ∧
    Looked epoch.objects (internal.savedValues sizes) epoch.values (after.savedValues sizes) ∧
    Looked epoch.objects (internal.savedWords sizes) epoch.words (after.savedWords sizes) ∧
    (∀ heap fields objects cycles garbage, Starts sizes internal epoch heap fields objects →
      after.savedValues sizes = epoch.values.map epoch.objects.fObjectFind ∧
      after.savedWords sizes = epoch.words.map epoch.objects.fObjectFind ∧
      ∃ references final objects',
        Performs ⟨heap, cycles, garbage, .epoch⟩ after.calls references final ∧
        final.control = .epoch ∧ References.Closed fields objects' ∧
        Covered fields objects' objects' ((after.saved sizes).filter (· ≠ 0)) final.heap) ∧
    ∀ state final references, Performs state after.calls references final →
      ∀ object, object ≠ 0 → final.heap.freed.count object = state.heap.freed.count object →
        (final.heap.count object + references.count object +
            (internal.saved sizes).count object) % 2 ^ 64 =
          (state.heap.count object + (after.saved sizes).count object) % 2 ^ 64 := by
  intro internal after
  have fits := fits_run memory epochs
  have passed := fits.run epoch
  obtain ⟨ups, downs, calls, _, _, count⟩ := passed.calls
  refine ⟨passed.fits.kept, ⟨ups, downs, calls⟩, passed.values, passed.words, ?_, ?_⟩
  · intro heap fields objects cycles garbage starts
    have still := starts.still
    refine ⟨passed.values.found fun q member => still q (List.mem_append_left _ member),
      passed.words.found fun q member => still q (List.mem_append_right _ member),
      starts.performs fits cycles garbage⟩
  intro state final references performs object real same
  have moved := (performs.count object).2 same
  have balance := count object real
  change ups.count object + (internal.saved sizes).count object =
    downs.count object + (after.saved sizes).count object at balance
  have calls : after.calls = ups.map Call.increment ++ downs.map Call.decrement := calls
  rw [calls, ups_calls, downs_calls] at moved
  omega

def two : Objects := ⟨1, fun object => object = 1 || object = 2, fun object => object = 1 || object = 2⟩

/-- A fiber with room for one value, which holds the object 1 and then nothing. -/
def holding : Epoch ⟨1, 0⟩ where
  thread := true
  estack := [1]
  native := []
  objects := two
  estack_le := Nat.le_refl 1
  native_le := Nat.le_refl 0

def letting : Epoch ⟨1, 0⟩ where
  thread := true
  estack := []
  native := []
  objects := two
  estack_le := Nat.zero_le 1
  native_le := Nat.le_refl 0

/-- The fiber still holds it when it is not found any more. -/
def losing : Epoch ⟨1, 0⟩ where
  thread := true
  estack := [1]
  native := []
  objects := ⟨1, fun _ => false, fun _ => false⟩
  estack_le := Nat.le_refl 1
  native_le := Nat.le_refl 0

/-- The object 1 has one reference, and the object 2 has two, one of which is from 1. -/
def held : Collector.State Nat where
  heap := {
    next := fun node => if node = .roots then some .roots else none
    previous := fun node => if node = .roots then some .roots else none
    color := fun _ => .black
    reviving := fun _ => false
    count := id
    cyclic := fun _ => 0
    typed := two.typed
    allocated := two.found
    freed := [] }
  cycles := []
  garbage := none
  control := .epoch

theorem held_performs : Performs held [.decrement 1] ([2] ++ [])
    ⟨(Collector.Heap.lower (held.heap.lower 1) 2).release 1, [], none, .epoch⟩ := by
  have releases : Performs _ [] ([2] ++ []) _ :=
    .release rfl (show Collector.step { held with
      heap := held.heap.lower 1
      control := .release 1 [] .epoch } (.tick [2]) = some _ from rfl) (.done _)
  exact .decrement rfl releases

theorem letting_starts : Starts ⟨1, 0⟩ (Internal.run (Internal.create ⟨1, 0⟩ fun _ => 0) holding)
    letting held.heap (fun object => if object = 1 then [2] else []) {1, 2} where
  found := ⟨rfl, rfl⟩
  aligned := fun object _ => Nat.mod_one object
  closed := by
    unfold References.Closed
    decide
  covered := by
    refine ⟨fun object => ?_, by decide, by decide, by decide⟩
    simp [Collector.Heap.live, held, two]
  bound := by decide

/-- The fiber lets its object go, which is released with a reference to another one. -/
theorem letting_counts :
    Looked letting.objects [1] [] [] ∧
    (∃ references final objects', Performs held [.decrement 1] references final ∧
      final.control = .epoch ∧
      References.Closed (fun object => if object = 1 then [2] else []) objects' ∧
      Covered (fun object => if object = 1 then [2] else []) objects' objects' [] final.heap) ∧
    ∃ final : Collector.State Nat, Performs held [.decrement 1] ([2] ++ []) final ∧
      (final.heap.count 2 + 1 + 0) % 2 ^ 64 = (2 + 0) % 2 ^ 64 := by
  have delta := snapshot_delta (fun _ => 0) [holding] letting
  have calls : (([holding].foldl Internal.run (Internal.create ⟨1, 0⟩ fun _ => 0)).run
      letting).calls = [.decrement 1] := by decide
  have enabled := (delta.2.2.2.2.1 held.heap _ _ [] none letting_starts).2.2
  have performs := held_performs
  rw [calls] at enabled
  rw [← calls] at performs
  have counts := delta.2.2.2.2.2 held _ _ performs 2 (by decide) rfl
  exact ⟨delta.2.2.1, enabled, _, held_performs, counts⟩

/-- The last reference to an object goes, and it lets another one go; and an entry that is
not found any more stays. -/
theorem released_reference :
    (¬ ∀ (sizes : Sizes) (memory : Nat → Nat) (epochs : List (Epoch sizes)) (epoch : Epoch sizes)
      (state final : Collector.State Nat) (references : List Nat),
      Performs state ((epochs.foldl Internal.run (Internal.create sizes memory)).run epoch).calls
        references final →
      ∀ object, object ≠ 0 → final.heap.freed.count object = state.heap.freed.count object →
        (final.heap.count object +
            ((epochs.foldl Internal.run (Internal.create sizes memory)).saved sizes).count
              object) % 2 ^ 64 =
          (state.heap.count object +
            (((epochs.foldl Internal.run (Internal.create sizes memory)).run epoch).saved
              sizes).count object) % 2 ^ 64) ∧
    ¬ ∀ (sizes : Sizes) (memory : Nat → Nat) (epochs : List (Epoch sizes)) (epoch : Epoch sizes),
      ((epochs.foldl Internal.run (Internal.create sizes memory)).run epoch).savedValues sizes =
        epoch.values.map epoch.objects.fObjectFind := by
  constructor
  · intro claim
    have calls : (([holding].foldl Internal.run (Internal.create ⟨1, 0⟩ fun _ => 0)).run
        letting).calls = [.decrement 1] := by decide
    have performs := held_performs
    rw [← calls] at performs
    have wrong := claim ⟨1, 0⟩ (fun _ => 0) [holding] letting held _ _ performs
    exact absurd (wrong 2 (by decide) rfl) (by decide)
  · intro claim
    exact absurd (claim ⟨1, 0⟩ (fun _ => 0) [holding] losing) (by decide)

end Xemmai.Snapshots
