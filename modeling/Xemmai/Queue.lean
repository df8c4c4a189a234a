import Xemmai.Machine
import Xemmai.Circular

/-!
# The update queues between a mutator and the collector

`t_slot::t_queue` is a ring of `A_SIZE` entries with one producer, which pushes,
and one consumer, which flushes up to an epoch the producer has published.
Pointers into `v_objects` are offsets from its start. Every read or write of a
word that both sides use is a step of its own, so the steps of the two sides
interleave freely, and the signal handler that publishes an epoch may run
between any two steps of the producer.
-/

namespace Xemmai

set_option autoImplicit false

namespace Queue

variable {α : Type}

/-- `t_increments` flushes up to the epoch it loads, `t_decrements` up to the
epoch it loaded at the end of its previous flush. -/
inductive Kind
  | increments
  | decrements
  deriving DecidableEq, Repr

/-- Where the producer stands in `f__push` and `f_next`. -/
inductive Producer (α : Type)
  | ready
  /-- `*v_head = a_object` is done, `v_head == v_next` is still to be tested. -/
  | stored (object : α)
  /-- In the loop that waits for room, after `v_head` went up or was wrapped. -/
  | waiting (wrapped : Bool)
  /-- Out of the loop, `v_next` still to be computed from `v_tail`. -/
  | refreshing (wrapped : Bool)
  deriving DecidableEq, Repr

/-- Where the consumer stands in `f__flush`, with its local variables. -/
inductive Consumer
  | idle
  | testing (epoch : Int)
  /-- `v_tail` has been advanced and `a_do(*v_tail)` comes next. -/
  | delivering (epoch next : Int)
  | comparing (epoch next : Int)
  /-- Out of `f__flush`, in front of `v_last = v_epoch.load()`. -/
  | reloading
  deriving DecidableEq, Repr

end Queue

/-- The queue, the registers of both sides, and the history of both sides: what
has been pushed, what had been pushed when `v_epoch` was published, when the
epoch in `v_last` was and when the epoch of the last flush was, and what has
been handed to `a_do`. -/
structure Queue (α : Type) where
  objects : Int → α
  head : Int
  next : Int
  epoch : Int
  tail : Int
  last : Int
  producer : Queue.Producer α
  consumer : Queue.Consumer
  pushed : List α
  published : List α
  kept : List α
  due : List α
  delivered : List α

namespace Queue

variable {α : Type}

/-- The member initialisers; the array holds anything. -/
def start (size : Int) (objects : Int → α) : Queue α where
  objects := objects
  head := 0
  next := size / 8
  epoch := 0
  tail := size - 1
  last := 0
  producer := .ready
  consumer := .idle
  pushed := []
  published := []
  kept := []
  due := []
  delivered := []

inductive Action (α : Type)
  | push (object : α)
  | produce
  | publish
  | flush
  | consume
  deriving DecidableEq, Repr

/-- `*v_head = a_object`. -/
def push (object : α) (queue : Queue α) : Option (Queue α) :=
  match queue.producer with
  | .ready => some { queue with
      objects := fun slot => if slot = queue.head then object else queue.objects slot
      producer := .stored object }
  | _ => none

/-- The rest of `f__push`, and `f_next` up to its loop; then one turn of the
loop, then the new limit. -/
def produce (size : Int) (queue : Queue α) : Option (Queue α) :=
  match queue.producer with
  | .ready => none
  | .stored object =>
    let queue := { queue with pushed := queue.pushed ++ [object] }
    if queue.head = queue.next then
      if queue.head < size - 1 then
        some { queue with head := queue.head + 1, producer := .waiting false }
      else
        some { queue with head := 0, producer := .waiting true }
    else
      some { queue with head := queue.head + 1, producer := .ready }
  | .waiting wrapped =>
    if queue.tail = queue.head then
      some queue
    else
      some { queue with producer := .refreshing wrapped }
  | .refreshing wrapped =>
    let room :=
      if !wrapped && decide (queue.tail < queue.head) then size - 1
      else queue.tail - 1
    some { queue with
      next := min room (queue.head + size / 8)
      producer := .ready }

/-- `f_epoch_get`, which the signal handler runs. -/
def publish (queue : Queue α) : Queue α :=
  { queue with epoch := queue.head, published := queue.pushed }

/-- `f__flush` up to its loop: the epoch becomes the last slot to deliver. -/
def flushing (size : Int) (epoch : Int) (due : List α) (queue : Queue α) : Queue α :=
  { queue with
    consumer := .testing (if epoch > 0 then epoch - 1 else size - 1)
    due := due }

/-- `f_flush` of either kind. -/
def flush (size : Int) (kind : Kind) (queue : Queue α) : Option (Queue α) :=
  match queue.consumer with
  | .idle =>
    match kind with
    | .increments => some (queue.flushing size queue.epoch queue.published)
    | .decrements => some (queue.flushing size queue.last queue.kept)
  | _ => none

/-- The loops of `f__flush`. -/
def consume (size : Int) (kind : Kind) (queue : Queue α) : Option (Queue α) :=
  match queue.consumer with
  | .idle => none
  | .testing epoch =>
    if queue.tail = epoch then
      match kind with
      | .increments => some { queue with consumer := .idle }
      | .decrements => some { queue with consumer := .reloading }
    else if queue.tail < size - 1 then
      let next := if epoch < queue.tail then size - 1 else epoch
      some { queue with
        tail := queue.tail + 1
        consumer := .delivering epoch next }
    else
      some { queue with tail := 0, consumer := .delivering epoch epoch }
  | .delivering epoch next =>
    some { queue with
      delivered := queue.delivered ++ [queue.objects queue.tail]
      consumer := .comparing epoch next }
  | .comparing epoch next =>
    if queue.tail = next then
      some { queue with consumer := .testing epoch }
    else
      some { queue with
        tail := queue.tail + 1
        consumer := .delivering epoch next }
  | .reloading => some { queue with
      last := queue.epoch
      kept := queue.published
      consumer := .idle }

def step (size : Int) (kind : Kind) (queue : Queue α) : Action α → Option (Queue α)
  | .push object => queue.push object
  | .produce => queue.produce size
  | .publish => some queue.publish
  | .flush => queue.flush size kind
  | .consume => queue.consume size kind

/-- The consumer owns the slots up to this position: those delivered and the one
it is about to read. -/
def reserved (queue : Queue α) : Nat :=
  match queue.consumer with
  | .delivering _ _ => queue.delivered.length + 1
  | _ => queue.delivered.length

/-- The object of a push whose slot is written and whose `v_head` is not. -/
def inFlight (queue : Queue α) : List α :=
  match queue.producer with
  | .stored object => [object]
  | _ => []

/-- What the producer may still write without looking at `v_tail` again. -/
def Room (size : Int) (queue : Queue α) : Prop :=
  match queue.producer with
  | .ready | .stored _ =>
    queue.head ≤ queue.next ∧ queue.next ≤ size - 1 ∧
      queue.pushed.length + (queue.next - queue.head) - queue.reserved ≤ size - 2
  | .waiting wrapped =>
    queue.pushed.length - queue.reserved ≤ size - 1 ∧
      (if wrapped then queue.head = 0 else 0 < queue.head)
  | .refreshing wrapped =>
    queue.pushed.length - queue.reserved ≤ size - 2 ∧
      (if wrapped then queue.head = 0 else 0 < queue.head)

/-- The inner loop of a flush ends on the lap it is on, and not past what is
due. -/
def Heading (size next : Int) (queue : Queue α) : Prop :=
  queue.tail ≤ next ∧ next ≤ size - 1 ∧
    queue.reserved + (next - queue.tail) ≤ queue.due.length

def Bound (size : Int) (queue : Queue α) : Prop :=
  match queue.consumer with
  | .idle | .reloading => queue.delivered = queue.due
  | .testing epoch => epoch = ((queue.due.length : Int) - 1) % size
  | .delivering epoch next | .comparing epoch next =>
    epoch = ((queue.due.length : Int) - 1) % size ∧ queue.Heading size next

structure Sound (size : Int) (kind : Kind) (queue : Queue α) : Prop where
  head : queue.head = (queue.pushed.length : Int) % size
  tail : queue.tail = ((queue.reserved : Int) - 1) % size
  room : queue.Room size
  bound : queue.Bound size
  held : ∀ (position : Nat) (within : position < queue.pushed.length),
    queue.delivered.length ≤ position →
    queue.objects ((position : Int) % size) = queue.pushed[position]
  written : ∀ object, queue.producer = .stored object →
    queue.objects queue.head = object
  epoch : queue.epoch = (queue.published.length : Int) % size
  last : queue.last = (queue.kept.length : Int) % size
  published : queue.published <+: queue.pushed
  kept : queue.kept <+: queue.published
  due : queue.due <+: queue.published
  dueKept : kind = .decrements → queue.due <+: queue.kept
  delivered : queue.delivered <+: queue.due

theorem reserved_bounds (queue : Queue α) :
    queue.delivered.length ≤ queue.reserved ∧
      queue.reserved ≤ queue.delivered.length + 1 := by
  unfold reserved
  split <;> omega

namespace Sound

variable {size : Int} {kind : Kind} {queue after : Queue α}

theorem reserved_le (sound : Sound size kind queue) :
    queue.reserved ≤ queue.due.length := by
  have bound := sound.bound
  have delivered := sound.delivered.length_le
  simp only [Bound, Heading, reserved] at bound ⊢
  split at bound
  all_goals simp_all only
  omega

theorem room_le (sound : Sound size kind queue) :
    (queue.pushed.length : Int) - queue.reserved ≤ size - 1 := by
  have room := sound.room
  simp only [Room] at room
  split at room <;> omega

theorem start (large : 16 ≤ size) (objects : Int → α) :
    Sound size kind (Queue.start size objects) where
  head := by simp [Queue.start]
  tail := by
    have last : (-1 : Int) % size = size - 1 := by
      rw [← Int.add_emod_right, Int.emod_eq_of_lt (by omega) (by omega)]
      omega
    simp [Queue.start, reserved, last]
  room := by
    simp only [Room, Queue.start, reserved, List.length_nil]
    omega
  bound := rfl
  held := by simp [Queue.start]
  written := by simp [Queue.start]
  epoch := by simp [Queue.start]
  last := by simp [Queue.start]
  published := List.prefix_refl _
  kept := List.prefix_refl _
  due := List.prefix_refl _
  dueKept := fun _ => List.prefix_refl _
  delivered := List.prefix_refl _

theorem push (sound : Sound size kind queue) {object : α}
    (taken : queue.push object = some after) : Sound size kind after := by
  cases producer : queue.producer with
  | ready =>
    simp only [Queue.push, producer, Option.some.injEq] at taken
    have room := sound.room
    simp only [Room, producer] at room
    have reserved := queue.reserved_bounds
    subst taken
    exact { sound with
      room := room
      held := by
        intro position within undelivered
        replace within : position < queue.pushed.length := within
        replace undelivered : queue.delivered.length ≤ position := undelivered
        have other : (position : Int) % size ≠ queue.head := by
          intro same
          rw [sound.head] at same
          have := Circular.slot_injective (by omega) (by omega) same
          omega
        simp only [if_neg other]
        exact sound.held position within undelivered
      written := by
        intro other stored
        simp only [Producer.stored.injEq] at stored
        simp [stored] }
  | stored _ => simp [Queue.push, producer] at taken
  | waiting _ => simp [Queue.push, producer] at taken
  | refreshing _ => simp [Queue.push, producer] at taken

theorem held_append (sound : Sound size kind queue) {object : α}
    (stored : queue.producer = .stored object) (position : Nat)
    (within : position < (queue.pushed ++ [object]).length)
    (undelivered : queue.delivered.length ≤ position) :
    queue.objects ((position : Int) % size) =
      (queue.pushed ++ [object])[position] := by
  rcases Nat.lt_or_ge position queue.pushed.length with before | last
  · rw [List.getElem_append_left before]
    exact sound.held position before undelivered
  · have here : position = queue.pushed.length := by
      simp only [List.length_append, List.length_singleton] at within
      omega
    subst here
    rw [← sound.head, sound.written object stored]
    simp

theorem produce (large : 16 ≤ size) (sound : Sound size kind queue)
    (taken : queue.produce size = some after) : Sound size kind after := by
  have room := sound.room
  have head := sound.head
  have succ := Circular.slot_succ size (by omega) queue.pushed.length
  have low := Int.emod_nonneg (queue.pushed.length : Int) (by omega : size ≠ 0)
  rw [← head] at succ low
  cases producer : queue.producer with
  | ready => simp [Queue.produce, producer] at taken
  | stored object =>
    simp only [Room, producer] at room
    have published := sound.published.trans (List.prefix_append _ [object])
    have held := sound.held_append producer
    have count : ((queue.pushed ++ [object]).length : Int) =
        queue.pushed.length + 1 := by simp
    simp only [Queue.produce, producer] at taken
    split at taken
    case isTrue full =>
      split at taken
      case isTrue inside =>
        rw [if_pos inside, ← count] at succ
        simp only [Option.some.injEq] at taken
        subst taken
        exact { sound with
          head := succ.symm
          room := by
            refine ⟨?_, by simp; omega⟩
            change ((queue.pushed ++ [object]).length : Int) - queue.reserved ≤ _
            omega
          published := published
          held := held
          written := by simp }
      case isFalse last =>
        rw [if_neg last, ← count] at succ
        simp only [Option.some.injEq] at taken
        subst taken
        exact { sound with
          head := succ.symm
          room := by
            refine ⟨?_, by simp⟩
            change ((queue.pushed ++ [object]).length : Int) - queue.reserved ≤ _
            omega
          published := published
          held := held
          written := by simp }
    case isFalse open_ =>
      rw [if_pos (by omega), ← count] at succ
      simp only [Option.some.injEq] at taken
      subst taken
      exact { sound with
        head := succ.symm
        room := by
          refine ⟨by simp only; omega, room.2.1, ?_⟩
          change ((queue.pushed ++ [object]).length : Int) +
            (queue.next - (queue.head + 1)) - queue.reserved ≤ _
          omega
        published := published
        held := held
        written := by simp }
  | waiting wrapped =>
    simp only [Room, producer] at room
    simp only [Queue.produce, producer] at taken
    split at taken
    case isTrue full =>
      simp only [Option.some.injEq] at taken
      exact taken ▸ sound
    case isFalse moved =>
      simp only [Option.some.injEq] at taken
      have ordered := sound.reserved_le
      have due := sound.due.length_le
      have published := sound.published.length_le
      have free : (queue.pushed.length : Int) - queue.reserved ≠ size - 1 := by
        intro full
        apply moved
        rw [sound.tail, head, show ((queue.pushed.length : Int)) =
          (queue.reserved : Int) - 1 + size by omega, Int.add_emod_right]
      subst taken
      exact { sound with
        room := ⟨by change (queue.pushed.length : Int) - queue.reserved ≤ _; omega, room.2⟩
        written := by simp }
  | refreshing wrapped =>
    simp only [Room, producer] at room
    simp only [Queue.produce, producer, Option.some.injEq] at taken
    have ordered := sound.reserved_le
    have due := sound.due.length_le
    have published := sound.published.length_le
    have apart := Circular.apart size ((queue.reserved : Int) - 1) queue.pushed.length
      (by omega) (by omega)
    rw [← head, ← sound.tail] at apart
    have high := Int.emod_lt_of_pos (queue.pushed.length : Int) (by omega : 0 < size)
    have tailLow := Int.emod_nonneg ((queue.reserved : Int) - 1) (by omega : size ≠ 0)
    have tailHigh := Int.emod_lt_of_pos ((queue.reserved : Int) - 1) (by omega : 0 < size)
    rw [← head] at high
    rw [← sound.tail] at tailLow tailHigh
    subst taken
    exact { sound with
      room := by
        change queue.head ≤ min _ (queue.head + size / 8) ∧
          min _ (queue.head + size / 8) ≤ size - 1 ∧
          (queue.pushed.length : Int) +
            (min _ (queue.head + size / 8) - queue.head) - queue.reserved ≤ size - 2
        cases wrapped
        all_goals
          simp only [Bool.not_false, Bool.not_true, Bool.true_and, Bool.false_and,
            decide_eq_true_eq, if_true, if_false, Bool.false_eq_true] at room ⊢
          omega
      written := by simp }

theorem publish (sound : Sound size kind queue) :
    Sound size kind queue.publish :=
  { sound with
    epoch := sound.head
    published := List.prefix_refl _
    kept := sound.kept.trans sound.published
    due := sound.due.trans sound.published }

theorem last_due (large : 16 ≤ size) (count : Nat) {epoch : Int}
    (here : epoch = (count : Int) % size) :
    (if epoch > 0 then epoch - 1 else size - 1) = ((count : Int) - 1) % size := by
  have apart := Circular.apart size ((count : Int) - 1) count (by omega) (by omega)
  have low := Int.emod_nonneg ((count : Int) - 1) (by omega : size ≠ 0)
  have high := Int.emod_lt_of_pos ((count : Int) - 1) (by omega : 0 < size)
  have epochLow := Int.emod_nonneg (count : Int) (by omega : size ≠ 0)
  rw [← here] at apart epochLow
  split <;> omega

theorem flush (large : 16 ≤ size) (sound : Sound size kind queue)
    (taken : queue.flush size kind = some after) : Sound size kind after := by
  cases consumer : queue.consumer with
  | idle =>
    have bound := sound.bound
    simp only [Bound, consumer] at bound
    have tail := sound.tail
    have room := sound.room
    simp only [Room, reserved, consumer] at room tail
    simp only [Queue.flush, consumer] at taken
    cases kind with
    | increments =>
      simp only [Option.some.injEq] at taken
      subst taken
      exact { sound with
        tail := tail
        room := room
        bound := last_due large _ sound.epoch
        due := List.prefix_refl _
        dueKept := nofun
        delivered := bound ▸ sound.due }
    | decrements =>
      simp only [Option.some.injEq] at taken
      subst taken
      exact { sound with
        tail := tail
        room := room
        bound := last_due large _ sound.last
        due := sound.kept
        dueKept := fun _ => List.prefix_refl _
        delivered := bound ▸ sound.dueKept rfl }
  | testing _ => simp [Queue.flush, consumer] at taken
  | delivering _ _ => simp [Queue.flush, consumer] at taken
  | comparing _ _ => simp [Queue.flush, consumer] at taken
  | reloading => simp [Queue.flush, consumer] at taken

theorem room_reserved {before : Queue α} (room : before.Room size)
    (producer : after.producer = before.producer) (head : after.head = before.head)
    (next : after.next = before.next) (pushed : after.pushed = before.pushed)
    (more : before.reserved ≤ after.reserved) : after.Room size := by
  simp only [Room, producer, head, next, pushed] at room ⊢
  cases stage : before.producer with
  | ready | stored _ =>
    simp only [stage] at room ⊢
    omega
  | waiting _ | refreshing _ =>
    simp only [stage] at room ⊢
    exact ⟨by omega, room.2⟩

theorem read (sound : Sound size kind queue) {epoch next : Int}
    (consumer : queue.consumer = .delivering epoch next) :
    queue.delivered ++ [queue.objects queue.tail] <+: queue.due := by
  have reserved := sound.reserved_le
  have tail := sound.tail
  simp only [Queue.reserved, consumer] at reserved tail
  have due := sound.due.trans sound.published
  have within : queue.delivered.length < queue.pushed.length := by
    have := due.length_le
    omega
  have held := sound.held _ within (Nat.le_refl _)
  rw [show ((queue.delivered.length + 1 : Nat) : Int) - 1 =
    (queue.delivered.length : Int) by omega] at tail
  rw [tail, held]
  have here : queue.pushed[queue.delivered.length] = queue.due[queue.delivered.length] :=
    (due.getElem (by omega)).symm
  have joined : queue.delivered ++ [queue.due[queue.delivered.length]] =
      queue.due.take (queue.delivered.length + 1) := by
    rw [List.take_succ_eq_append_getElem (by omega)]
    congr 1
    exact List.prefix_iff_eq_take.mp sound.delivered
  rw [here, joined]
  exact List.take_prefix _ _

theorem consume (large : 16 ≤ size) (sound : Sound size kind queue)
    (taken : queue.consume size kind = some after) : Sound size kind after := by
  have bound := sound.bound
  have tail := sound.tail
  have room := sound.room
  have capacity := sound.room_le
  have due := (sound.due.trans sound.published).length_le
  have delivered := sound.delivered
  have low := Int.emod_nonneg ((queue.reserved : Int) - 1) (by omega : size ≠ 0)
  have high := Int.emod_lt_of_pos ((queue.reserved : Int) - 1) (by omega : 0 < size)
  rw [← tail] at low high
  cases consumer : queue.consumer with
  | idle => simp [Queue.consume, consumer] at taken
  | testing epoch =>
    have reserved : queue.reserved = queue.delivered.length := by
      simp [Queue.reserved, consumer]
    simp only [Bound, consumer] at bound
    have apart := Circular.apart size ((queue.reserved : Int) - 1)
      ((queue.due.length : Int) - 1) (by have := delivered.length_le; omega) (by omega)
    have epochLow := Int.emod_nonneg ((queue.due.length : Int) - 1)
      (by omega : size ≠ 0)
    have epochHigh := Int.emod_lt_of_pos ((queue.due.length : Int) - 1)
      (by omega : 0 < size)
    rw [← tail, ← bound] at apart
    rw [← bound] at epochLow epochHigh
    have succ := Circular.slot_succ size (by omega) ((queue.reserved : Int) - 1)
    rw [← tail] at succ
    simp only [Queue.consume, consumer] at taken
    split at taken
    case isTrue done =>
      have all : queue.delivered = queue.due :=
        delivered.eq_of_length (by omega)
      cases kind with
      | increments =>
        simp only [Option.some.injEq] at taken
        subst taken
        exact { sound with
          tail := by rw [reserved] at tail; exact tail
          room := room_reserved room rfl rfl rfl rfl (by rw [reserved]; exact Nat.le_refl _)
          bound := all }
      | decrements =>
        simp only [Option.some.injEq] at taken
        subst taken
        exact { sound with
          tail := by rw [reserved] at tail; exact tail
          room := room_reserved room rfl rfl rfl rfl (by rw [reserved]; exact Nat.le_refl _)
          bound := all }
    case isFalse more =>
      have next : ((queue.reserved : Int) - 1 + 1) = ((queue.delivered.length + 1 : Nat) : Int) - 1 := by
        omega
      rw [next] at succ
      split at taken
      case isTrue inside =>
        rw [if_pos inside] at succ
        simp only [Option.some.injEq] at taken
        subst taken
        exact { sound with
          tail := succ.symm
          room := room_reserved room rfl rfl rfl rfl (by rw [reserved]; exact Nat.le_succ _)
          bound := by
            refine ⟨bound, ?_⟩
            simp only [Heading, Queue.reserved]
            split <;> omega }
      case isFalse last =>
        rw [if_neg last] at succ
        simp only [Option.some.injEq] at taken
        subst taken
        exact { sound with
          tail := succ.symm
          room := room_reserved room rfl rfl rfl rfl (by rw [reserved]; exact Nat.le_succ _)
          bound := by
            refine ⟨bound, ?_⟩
            simp only [Heading, Queue.reserved]
            omega }
  | delivering epoch next =>
    have reserved : queue.reserved = queue.delivered.length + 1 := by
      simp [Queue.reserved, consumer]
    have read := sound.read consumer
    simp only [Bound, Heading, consumer] at bound
    simp only [Queue.consume, consumer, Option.some.injEq] at taken
    have count : (queue.delivered ++ [queue.objects queue.tail]).length =
        queue.delivered.length + 1 := by simp
    subst taken
    exact { sound with
      tail := by
        simp only [Queue.reserved, count]
        rw [reserved] at tail
        exact tail
      room := room_reserved room rfl rfl rfl rfl (by
        rw [reserved]
        simp only [Queue.reserved, count]
        exact Nat.le_refl _)
      bound := by
        refine ⟨bound.1, bound.2.1, bound.2.2.1, ?_⟩
        simp only [Queue.reserved, count]
        omega
      held := by
        intro position within undelivered
        apply sound.held position within
        simp only [count] at undelivered
        omega
      delivered := read }
  | comparing epoch next =>
    have reserved : queue.reserved = queue.delivered.length := by
      simp [Queue.reserved, consumer]
    simp only [Bound, Heading, consumer] at bound
    simp only [Queue.consume, consumer] at taken
    split at taken
    case isTrue done =>
      simp only [Option.some.injEq] at taken
      subst taken
      exact { sound with
        tail := by rw [reserved] at tail; exact tail
        room := room_reserved room rfl rfl rfl rfl (by rw [reserved]; exact Nat.le_refl _)
        bound := bound.1 }
    case isFalse more =>
      have succ := Circular.slot_succ size (by omega) ((queue.reserved : Int) - 1)
      rw [← tail, if_pos (by omega), show ((queue.reserved : Int) - 1 + 1) =
        ((queue.delivered.length + 1 : Nat) : Int) - 1 by omega] at succ
      simp only [Option.some.injEq] at taken
      subst taken
      exact { sound with
        tail := succ.symm
        room := room_reserved room rfl rfl rfl rfl (by rw [reserved]; exact Nat.le_succ _)
        bound := by
          refine ⟨bound.1, ?_⟩
          simp only [Heading, Queue.reserved]
          omega }
  | reloading =>
    have reserved : queue.reserved = queue.delivered.length := by
      simp [Queue.reserved, consumer]
    simp only [Bound, consumer] at bound
    simp only [Queue.consume, consumer, Option.some.injEq] at taken
    subst taken
    exact { sound with
      tail := by rw [reserved] at tail; exact tail
      room := room_reserved room rfl rfl rfl rfl (by rw [reserved]; exact Nat.le_refl _)
      bound := bound
      last := sound.epoch
      kept := List.prefix_refl _
      dueKept := fun _ => sound.due }

theorem step (large : 16 ≤ size) (sound : Sound size kind queue) {action : Action α}
    (taken : queue.step size kind action = some after) : Sound size kind after := by
  cases action with
  | push object => exact sound.push taken
  | produce => exact sound.produce large taken
  | publish =>
    simp only [Queue.step, Option.some.injEq] at taken
    exact taken ▸ sound.publish
  | flush => exact sound.flush large taken
  | consume => exact sound.consume large taken

end Sound

def pushes (actions : List (Action α)) : List α :=
  actions.filterMap fun action =>
    match action with
    | .push object => some object
    | _ => none

theorem step_pushes {size : Int} {kind : Kind} {queue after : Queue α}
    {action : Action α} (taken : queue.step size kind action = some after) :
    after.pushed ++ after.inFlight =
      queue.pushed ++ queue.inFlight ++ pushes [action] := by
  cases action with
  | push object =>
    cases producer : queue.producer
    all_goals
      simp only [step, push, producer, Option.some.injEq, reduceCtorEq] at taken
    subst taken
    simp [inFlight, pushes, producer]
  | produce =>
    cases producer : queue.producer
    all_goals
      simp only [step, produce, producer, reduceCtorEq] at taken
    case stored object =>
      split at taken
      · split at taken
        all_goals
          cases taken
          simp [inFlight, pushes, producer]
      · cases taken
        simp [inFlight, pushes, producer]
    case waiting wrapped =>
      split at taken
      all_goals
        cases taken
        simp [inFlight, pushes, producer]
    case refreshing wrapped =>
      cases taken
      simp [inFlight, pushes, producer]
  | publish =>
    cases taken
    simp [publish, inFlight, pushes]
  | flush =>
    cases consumer : queue.consumer
    all_goals
      simp only [step, flush, consumer, reduceCtorEq] at taken
    cases kind
    all_goals
      cases taken
      simp [flushing, inFlight, pushes]
  | consume =>
    cases consumer : queue.consumer
    all_goals
      simp only [step, consume, consumer, reduceCtorEq] at taken
    case testing epoch =>
      split at taken
      · cases kind
        all_goals
          cases taken
          simp [inFlight, pushes]
      · split at taken
        all_goals
          cases taken
          simp [inFlight, pushes]
    case comparing epoch next =>
      split at taken
      all_goals
        cases taken
        simp [inFlight, pushes]
    all_goals
      cases taken
      simp [inFlight, pushes]

def work (queue : Queue α) : Nat :=
  let left := queue.due.length - queue.delivered.length
  match queue.consumer with
  | .idle => 0
  | .reloading => 1
  | .testing _ => 3 * left + 2
  | .delivering _ _ => 3 * left + 1
  | .comparing _ _ => 3 * left + 3

/-- A flush under way is never blocked and comes to an end. -/
theorem consume_progress {size : Int} {kind : Kind} {queue : Queue α}
    (sound : Sound size kind queue) (busy : queue.consumer ≠ .idle) :
    ∃ after, queue.consume size kind = some after ∧ after.work < queue.work := by
  cases consumer : queue.consumer with
  | idle => exact absurd consumer busy
  | testing epoch =>
    by_cases done : queue.tail = epoch
    · cases kind
      all_goals
        simp only [consume, consumer, if_pos done]
        exact ⟨_, rfl, by simp [work, consumer]⟩
    · by_cases inside : queue.tail < size - 1
      · simp only [consume, consumer, if_neg done, if_pos inside]
        exact ⟨_, rfl, by simp [work, consumer]⟩
      · simp only [consume, consumer, if_neg done, if_neg inside]
        exact ⟨_, rfl, by simp [work, consumer]⟩
  | delivering epoch next =>
    have within := (sound.read consumer).length_le
    simp only [List.length_append, List.length_singleton] at within
    simp only [consume, consumer]
    refine ⟨_, rfl, ?_⟩
    simp only [work, consumer, List.length_append, List.length_singleton]
    omega
  | comparing epoch next =>
    by_cases done : queue.tail = next
    · simp only [consume, consumer, if_pos done]
      exact ⟨_, rfl, by simp [work, consumer]⟩
    · simp only [consume, consumer, if_neg done]
      exact ⟨_, rfl, by simp [work, consumer]⟩
  | reloading =>
    simp only [consume, consumer]
    exact ⟨_, rfl, by simp [work, consumer]⟩

/-- The steps of the producer are none of the consumer's business. -/
theorem step_consumer {size : Int} {kind : Kind} {queue after : Queue α}
    {action : Action α} (other : action ≠ .consume) (notFlush : action ≠ .flush)
    (taken : queue.step size kind action = some after) :
    after.consumer = queue.consumer ∧ after.due = queue.due ∧
      after.work = queue.work := by
  cases action with
  | push object =>
    cases producer : queue.producer
    all_goals
      simp only [step, push, producer, reduceCtorEq] at taken
    cases taken
    exact ⟨rfl, rfl, rfl⟩
  | produce =>
    cases producer : queue.producer
    all_goals
      simp only [step, produce, producer, reduceCtorEq] at taken
    case stored object =>
      split at taken
      · split at taken
        all_goals
          cases taken
          exact ⟨rfl, rfl, rfl⟩
      · cases taken
        exact ⟨rfl, rfl, rfl⟩
    case waiting wrapped =>
      split at taken
      all_goals
        cases taken
        exact ⟨rfl, rfl, rfl⟩
    case refreshing wrapped =>
      cases taken
      exact ⟨rfl, rfl, rfl⟩
  | publish =>
    cases taken
    exact ⟨rfl, rfl, rfl⟩
  | flush => exact absurd rfl notFlush
  | consume => exact absurd rfl other

theorem consume_due {size : Int} {kind : Kind} {queue after : Queue α}
    (taken : queue.consume size kind = some after) : after.due = queue.due := by
  cases consumer : queue.consumer
  all_goals
    simp only [consume, consumer, reduceCtorEq] at taken
  case testing epoch =>
    split at taken
    · cases kind
      all_goals
        cases taken
        rfl
    · split at taken
      all_goals
        cases taken
        rfl
  case comparing epoch next =>
    split at taken
    all_goals
      cases taken
      rfl
  all_goals
    cases taken
    rfl

theorem run_due {size : Int} {kind : Kind} {queue final : Queue α}
    {actions : List (Action α)} (none : ∀ action ∈ actions, action ≠ .flush)
    (reached : Machine.run (fun queue => queue.step size kind) queue actions =
      some final) : final.due = queue.due := by
  induction actions generalizing queue with
  | nil =>
    cases reached
    rfl
  | cons action actions ih =>
    rw [Machine.run_cons, Option.bind_eq_some_iff] at reached
    obtain ⟨after, taken, rest⟩ := reached
    rw [ih (fun other member => none other (List.mem_cons_of_mem _ member)) rest]
    by_cases consumes : action = .consume
    · subst consumes
      exact consume_due taken
    · exact (step_consumer consumes (none action List.mem_cons_self) taken).2.1

/-- Over every interleaving of the pushes, of the publishing of epochs and of
the flushes: what has been delivered is what was pushed, in order, and when a
flush is over it is all that was pushed up to the epoch of that flush; an entry
not yet delivered is still in its slot, no pointer leaves the array, and a flush
under way can always go on and ends. -/
theorem delivers_exactly {size : Int} (large : 16 ≤ size) (kind : Kind)
    (objects : Int → α) {actions : List (Action α)} {queue : Queue α}
    (reached : Machine.run (fun queue => queue.step size kind)
      (Queue.start size objects) actions = some queue) :
    queue.pushed ++ queue.inFlight = pushes actions ∧
    queue.delivered <+: queue.due ∧ queue.due <+: queue.published ∧
    queue.published <+: queue.pushed ∧
    (queue.consumer = .idle → queue.delivered = queue.due) ∧
    (∀ (position : Nat) (within : position < queue.pushed.length),
      queue.delivered.length ≤ position →
      queue.objects ((position : Int) % size) = queue.pushed[position]) ∧
    (0 ≤ queue.head ∧ queue.head < size) ∧ (0 ≤ queue.tail ∧ queue.tail < size) ∧
    (∀ flushing later final, queue.flush size kind = some flushing →
      (∀ action ∈ later, action ≠ .flush) →
      Machine.run (fun queue => queue.step size kind) flushing later = some final →
      final.consumer = .idle →
      final.delivered =
        match kind with
        | .increments => queue.published
        | .decrements => queue.kept) ∧
    (queue.consumer ≠ .idle →
      (∃ after, queue.consume size kind = some after ∧ after.work < queue.work) ∧
      ∀ action after, action ≠ .consume → queue.step size kind action = some after →
        after.work = queue.work) := by
  have step : ∀ (before : Queue α) action after, Sound size kind before →
      before.step size kind action = some after → Sound size kind after :=
    fun _ _ _ sound taken => sound.step large taken
  have sound : Sound size kind queue :=
    Machine.run_invariant (Sound size kind) (Sound.start large objects)
      step reached
  have finished : ∀ {queue : Queue α}, Sound size kind queue →
      queue.consumer = .idle → queue.delivered = queue.due := by
    intro queue sound idle
    have bound := sound.bound
    simp only [Bound, idle] at bound
    exact bound
  have asked := Machine.run_history
    (fun actions (queue : Queue α) => queue.pushed ++ queue.inFlight = pushes actions)
    (by simp [Queue.start, inFlight, pushes])
    (by
      intro actions before action after asked taken
      rw [step_pushes taken, asked]
      simp [pushes])
    actions queue reached
  refine ⟨asked, sound.delivered, sound.due, sound.published, finished sound, sound.held,
    ?_, ?_, ?_, fun busy => ⟨consume_progress sound busy, ?_⟩⟩
  · rw [sound.head]
    exact ⟨Int.emod_nonneg _ (by omega), Int.emod_lt_of_pos _ (by omega)⟩
  · rw [sound.tail]
    exact ⟨Int.emod_nonneg _ (by omega), Int.emod_lt_of_pos _ (by omega)⟩
  · intro flushing later final taken none rest idle
    have flushed := sound.flush large taken
    rw [finished (Machine.run_invariant (Sound size kind) flushed step rest) idle,
      run_due none rest]
    cases consumer : queue.consumer
    all_goals
      simp only [Queue.flush, consumer, reduceCtorEq] at taken
    cases kind
    all_goals
      cases taken
      rfl
  · intro action after other taken
    have notFlush : action ≠ .flush := by
      rintro rfl
      cases consumer : queue.consumer
      case idle => exact busy consumer
      all_goals simp [Queue.step, Queue.flush, consumer] at taken
    exact (step_consumer other notFlush taken).2.2

theorem delivers_one_of_two :
    ∃ queue : Queue Nat,
      Machine.run (fun queue => queue.step 16 .increments)
        (Queue.start 16 fun _ => 0)
        [.push 7, .produce, .publish, .flush, .push 8, .consume, .consume, .consume,
          .consume] = some queue ∧
      queue.pushed ++ queue.inFlight = [7, 8] ∧ queue.delivered = [7] := by
  refine ⟨_, rfl, ?_⟩
  have exact_ := @delivers_exactly Nat 16 (by decide) .increments (fun _ => 0)
    [.push 7, .produce, .publish, .flush, .push 8, .consume, .consume, .consume,
      .consume] _ rfl
  exact ⟨exact_.1, exact_.2.2.2.2.1 rfl⟩

end Queue

end Xemmai
