import Mathlib.Logic.Basic

/-!
# Writers whose callback throws

`t_writer` as far as it goes on after a call that has given up or thrown: what is left of
the buffer (`v_remain`), of the value (`v_value`) and of the steps behind it (`v_step`).
The encoder is any `iconv`, with or without a shift state.
-/

namespace Xemmai.Recovery

set_option autoImplicit false

/-- `iconv` has taken all of the input, or sets `E2BIG` or another `errno`. -/
inductive Outcome
  | complete
  | full
  | invalid
  deriving DecidableEq, Repr

/-- What `iconv` returns, and what it does to its arguments. -/
structure Conversion (χ σ : Type) where
  outcome : Outcome
  written : Nat
  rest : List χ
  shift : σ

/-- `iconv` with a state, the room and the input, which is none for `NULL`. Where the room
has not been enough for what comes next, it is not enough the next time; what puts the
state back can only lack room. -/
structure Encoder (χ σ : Type) where
  iconv : σ → Nat → Option (List χ) → Conversion χ σ
  again : ∀ shift room input, (iconv shift room input).outcome = .full →
    iconv (iconv shift room input).shift (room - (iconv shift room input).written)
        (input.map fun _ => (iconv shift room input).rest) =
      ⟨.full, 0, (iconv shift room input).rest, (iconv shift room input).shift⟩
  reset : ∀ shift room, (iconv shift room none).outcome ≠ .invalid

/-- Where `f_write()` calls the callback: in the conversion of `f__write`, for `write` or
`write_line`, of `v_value`, of the newline or of the end in `f__resume`, or in `case 1`. -/
inductive Within (χ : Type)
  | value (line : Bool) (x : List χ)
  | pending
  | newline
  | reset
  | last
  deriving DecidableEq, Repr

inductive Ended
  | returned (result : Bool)
  | required
  | threw
  deriving DecidableEq, Repr

/-- `filled` is `v_p1` and `remain` is `v_remain`, both from the start of the buffer on. -/
structure Writer (χ σ : Type) where
  filled : Nat
  remain : Option Nat
  input : List χ
  shift : σ
  value : Option (List χ)
  step : Nat
  within : Option (Within χ)
  ended : Option Ended

/-- The value is none where its `f_string()` throws, or is not a string. -/
inductive Call (χ : Type)
  | write (value : Option (List χ))
  | writeLine (value : Option (List χ))
  | flush
  | resume
  deriving DecidableEq, Repr

/-- A call, or what the callback does: it returns a number, or throws. -/
inductive Action (χ : Type)
  | call (call : Call χ)
  | reply (n : Nat)
  | throws
  deriving DecidableEq, Repr

variable {χ σ : Type}

def start (shift : σ) : Writer χ σ where
  filled := 0
  remain := none
  input := []
  shift := shift
  value := none
  step := 0
  within := none
  ended := none

namespace Writer

def finish (writer : Writer χ σ) (ended : Ended) : Writer χ σ :=
  { writer with within := none, ended := some ended }

/-- `f_write()` calls the callback. -/
def wait (writer : Writer χ σ) (within : Within χ) : Writer χ σ :=
  { writer with remain := some (writer.remain.getD 0), within := some within }

section

variable (encoder : Encoder χ σ) (newline : χ) (size : Nat)

/-- What `iconv` makes of the input, or of `NULL`, with the room there is. -/
def converted (writer : Writer χ σ) (null : Bool) : Conversion χ σ :=
  encoder.iconv writer.shift (size - writer.filled) (if null then none else some writer.input)

/-- `iconv(v_cd, a_p, a_n, &v_p1, &v_n1)` -/
def convert (writer : Writer χ σ) (null : Bool) : Writer χ σ :=
  { writer with
    filled := writer.filled + (writer.converted encoder size null).written
    input := if null then writer.input else (writer.converted encoder size null).rest
    shift := (writer.converted encoder size null).shift }

/-- `f__resume` from `case 2` on. -/
def resumeReset (writer : Writer χ σ) : Writer χ σ :=
  match (writer.converted encoder size true).outcome with
  | .complete => { writer.convert encoder size true with step := writer.step - 1 }.wait .last
  | .full => (writer.convert encoder size true).wait .reset
  | .invalid => (writer.convert encoder size true).finish .threw

/-- `f__resume` from `case 3` on. -/
def resumeNewline (writer : Writer χ σ) : Writer χ σ :=
  match (writer.converted encoder size false).outcome with
  | .complete =>
      { writer.convert encoder size false with step := writer.step - 1 }.resumeReset encoder size
  | .full => (writer.convert encoder size false).wait .newline
  | .invalid => (writer.convert encoder size false).finish .threw

/-- The `switch` of `f__resume`. -/
def resumeStep (writer : Writer χ σ) : Writer χ σ :=
  match writer.step with
  | 4 => { writer with input := [newline], step := writer.step - 1 }.resumeNewline encoder size
  | 3 => writer.resumeNewline encoder size
  | 2 => writer.resumeReset encoder size
  | 1 => writer.wait .last
  | _ => writer.finish (.returned true)

/-- The conversion of `v_value` in `f__resume`, and what follows. -/
def resumeValue (writer : Writer χ σ) : Writer χ σ :=
  match (writer.converted encoder size false).outcome with
  | .complete =>
      { writer.convert encoder size false with value := none }.resumeStep encoder newline size
  | .full => (writer.convert encoder size false).wait .pending
  | .invalid => (writer.convert encoder size false).finish .threw

/-- `f__resume` -/
def fResume (writer : Writer χ σ) : Writer χ σ :=
  if writer.value.isSome then writer.resumeValue encoder newline size
  else writer.resumeStep encoder newline size

/-- The conversion of `f__write`, and what follows in `f_write` and `f_write_line`. -/
def writeValue (writer : Writer χ σ) (line : Bool) (x : List χ) : Writer χ σ :=
  match (writer.converted encoder size false).outcome with
  | .complete =>
      if line then { writer.convert encoder size false with step := 4 }.fResume encoder newline size
      else (writer.convert encoder size false).finish (.returned true)
  | .full => (writer.convert encoder size false).wait (.value line x)
  | .invalid => (writer.convert encoder size false).finish .threw

/-- `f_write` and `f_write_line` -/
def fWrite (writer : Writer χ σ) (line : Bool) (value : Option (List χ)) : Writer χ σ :=
  if writer.remain.isSome then writer.finish .required
  else
    match value with
    | some x => { writer with input := x }.writeValue encoder newline size line x
    | none => writer.finish .threw

def fFlush (writer : Writer χ σ) : Writer χ σ :=
  if writer.remain.isSome then writer.finish .required
  else { writer with step := 2 }.fResume encoder newline size

def enter (writer : Writer χ σ) (call : Call χ) : Writer χ σ :=
  let writer := { writer with ended := none }
  match call with
  | .write value => writer.fWrite encoder newline size false value
  | .writeLine value => writer.fWrite encoder newline size true value
  | .flush => writer.fFlush encoder newline size
  | .resume => writer.fResume encoder newline size

/-- `f_write()` after the callback has accepted all it was offered. -/
def emptied (writer : Writer χ σ) (within : Within χ) : Writer χ σ :=
  let writer := { writer with filled := 0, remain := none }
  match within with
  | .value line x => writer.writeValue encoder newline size line x
  | .pending => writer.resumeValue encoder newline size
  | .newline => writer.resumeNewline encoder size
  | .reset => writer.resumeReset encoder size
  | .last => { writer with step := writer.step - 1 }.finish (.returned true)

/-- `f_write()` has returned false. -/
def giveUp (writer : Writer χ σ) (within : Within χ) : Writer χ σ :=
  match within with
  | .value line x =>
      { writer with
        value := some x
        step := if line then 4 else writer.step }.finish (.returned false)
  | _ => writer.finish (.returned false)

def act (writer : Writer χ σ) : Action χ → Option (Writer χ σ)
  | .call call =>
      if writer.within.isNone then some (writer.enter encoder newline size call) else none
  | .reply n =>
      match writer.within, writer.remain with
      | some within, some remain =>
          if remain + n < writer.filled then
            some ({ writer with remain := some (remain + n) }.giveUp within)
          else some (writer.emptied encoder newline size within)
      | _, _ => none
  | .throws => if writer.within.isSome then some (writer.finish .threw) else none

/-- The callback has been called from the conversion of `f__write`, and nothing else is left
to do. -/
def Writes (writer : Writer χ σ) : Prop :=
  (∃ line x, writer.within = some (.value line x)) ∧ writer.value = none ∧ writer.step = 0

/-- The writers that are reached while the callback does not throw where the conversion of
`f__write` has called it and nothing else is left to do. -/
inductive Reached (shift : σ) : Writer χ σ → Prop
  | start : Reached shift (start shift)
  | act {writer after : Writer χ σ} {action : Action χ} (reached : Reached shift writer)
      (acts : writer.act encoder newline size action = some after)
      (careful : action = .throws → ¬writer.Writes) : Reached shift after

/-- The next `write` or `flush` does not demand a resume. -/
def Accepts (writer : Writer χ σ) : Prop :=
  (∀ line x, ({ writer with ended := none }.fWrite encoder newline size line x).ended ≠
    some .required) ∧
  ({ writer with ended := none }.fFlush encoder newline size).ended ≠ some .required

/-- `resume` calls the callback. -/
def Resumes (writer : Writer χ σ) : Prop :=
  (writer.enter encoder newline size .resume).within.isSome

/-- `write` and `flush` demand a resume, and `resume` returns true and has done nothing. -/
structure Stuck (writer : Writer χ σ) : Prop where
  write : ∀ line x, ({ writer with ended := none }.fWrite encoder newline size line x).ended =
    some .required
  flush : ({ writer with ended := none }.fFlush encoder newline size).ended = some .required
  resume : writer.enter encoder newline size .resume =
    { writer with within := none, ended := some (.returned true) }

/-- Once a call has ended, a writer is idle or can be resumed, and is not stuck. -/
def Recoverable (writer : Writer χ σ) : Prop :=
  writer.within = none →
    (writer.Accepts encoder newline size ∨ writer.Resumes encoder newline size) ∧
      ¬writer.Stuck encoder newline size

end

/-- The input, or `NULL`, has no room. -/
def Blocked (encoder : Encoder χ σ) (size : Nat) (writer : Writer χ σ) (null : Bool) : Prop :=
  (writer.converted encoder size null).outcome = .full

/-- What is still to be done where a resume goes on. -/
inductive Pends (encoder : Encoder χ σ) (size : Nat) (writer : Writer χ σ) : Within χ → Prop
  | pending (value : writer.value.isSome) (step : writer.step ≤ 4)
      (blocked : writer.Blocked encoder size false) : Pends _ _ _ .pending
  | newline (value : writer.value = none) (step : writer.step = 3)
      (blocked : writer.Blocked encoder size false) : Pends _ _ _ .newline
  | reset (value : writer.value = none) (step : writer.step = 2) : Pends _ _ _ .reset
  | last (value : writer.value = none) (step : writer.step = 1) : Pends _ _ _ .last

/-- Nothing is offered. A conversion that has failed can leave a value or a step. -/
def Free (writer : Writer χ σ) : Prop :=
  writer.remain = none ∧ writer.step ≤ 4 ∧ (writer.step = 4 → writer.value.isSome)

/-- A writer whose callback has been called, and one that no call is made to. -/
def Stands (encoder : Encoder χ σ) (size : Nat) (writer : Writer χ σ) : Prop :=
  match writer.within with
  | some (.value _ _) => writer.remain.isSome ∧ writer.step ≤ 4 ∧
      (writer.step = 4 → writer.value.isSome) ∧ writer.Blocked encoder size false
  | some within => writer.remain.isSome ∧ writer.Pends encoder size within
  | none => writer.Free ∨ writer.remain.isSome ∧ ∃ within, writer.Pends encoder size within

section

variable {encoder : Encoder χ σ} {newline : χ} {size : Nat} {writer : Writer χ σ}

theorem convert_blocked {null : Bool} (blocked : writer.Blocked encoder size null) :
    (writer.convert encoder size null).Blocked encoder size null := by
  have again := encoder.again writer.shift (size - writer.filled)
    (if null then none else some writer.input) blocked
  unfold Blocked
  cases null with
  | true =>
      have same : (writer.convert encoder size true).converted encoder size true =
          encoder.iconv (writer.converted encoder size true).shift
            (size - writer.filled - (writer.converted encoder size true).written) none := by
        simp only [converted, convert, if_true, Nat.sub_sub]
      rw [same]
      exact congrArg Conversion.outcome again
  | false =>
      have same : (writer.convert encoder size false).converted encoder size false =
          encoder.iconv (writer.converted encoder size false).shift
            (size - writer.filled - (writer.converted encoder size false).written)
            (some (writer.converted encoder size false).rest) := by
        simp only [converted, convert, Bool.false_eq_true, if_false, Nat.sub_sub]
      rw [same]
      exact congrArg Conversion.outcome again

theorem stands_last (value : writer.value = none) (step : writer.step = 1) :
    (writer.wait .last).Stands encoder size :=
  ⟨rfl, .last value step⟩

theorem stands_reset (value : writer.value = none) (step : writer.step = 2) :
    (writer.resumeReset encoder size).Stands encoder size := by
  unfold resumeReset
  split
  · apply stands_last
    · exact value
    · change writer.step - 1 = 1
      rw [step]
  · exact ⟨rfl, .reset value step⟩
  · rename_i invalid
    exact absurd invalid (encoder.reset _ _)

theorem stands_newline (value : writer.value = none) (step : writer.step = 3)
    (free : writer.remain = none ∨ writer.Blocked encoder size false) :
    (writer.resumeNewline encoder size).Stands encoder size := by
  unfold resumeNewline
  split
  · apply stands_reset
    · exact value
    · change writer.step - 1 = 2
      rw [step]
  · rename_i full
    exact ⟨rfl, .newline value step (convert_blocked full)⟩
  · rename_i invalid
    have unheld : writer.remain = none := by
      apply free.resolve_right
      intro blocked
      exact Outcome.noConfusion (invalid.symm.trans blocked)
    have bound : writer.step ≤ 4 := by omega
    have other : writer.step ≠ 4 := by omega
    exact .inl ⟨unheld, bound, fun last => absurd last other⟩

/-- `f__resume` from its `switch` on, where `v_value` is null. -/
theorem stands_step (value : writer.value = none) (bound : writer.step ≤ 4)
    (free : writer.remain = none ∨ writer.step = 1 ∨ writer.step = 2 ∨
      writer.step = 3 ∧ writer.Blocked encoder size false) :
    (writer.resumeStep encoder newline size).Stands encoder size := by
  unfold resumeStep
  split
  · rename_i step
    have unheld : writer.remain = none := by
      apply free.resolve_right
      omega
    apply stands_newline
    · exact value
    · change writer.step - 1 = 3
      rw [step]
    · exact .inl unheld
  · rename_i step
    apply stands_newline
    · exact value
    · exact step
    · rcases free with free | one | two | ⟨_, blocked⟩
      · exact .inl free
      · omega
      · omega
      · exact .inr blocked
  · rename_i step
    exact stands_reset value step
  · rename_i step
    exact stands_last value step
  · rename_i four three two one
    have zero : writer.step = 0 := by
      have four' : writer.step ≠ 4 := four
      have three' : writer.step ≠ 3 := three
      have two' : writer.step ≠ 2 := two
      have one' : writer.step ≠ 1 := one
      omega
    have unheld : writer.remain = none := by
      apply free.resolve_right
      omega
    exact .inl ⟨unheld, bound, fun last => absurd (zero.symm.trans last) (by decide)⟩

/-- `f__resume` where there is a value. -/
theorem stands_value (value : writer.value.isSome) (bound : writer.step ≤ 4)
    (free : writer.remain = none ∨ writer.Blocked encoder size false) :
    (writer.resumeValue encoder newline size).Stands encoder size := by
  unfold resumeValue
  split
  · rename_i complete
    have unheld : writer.remain = none := by
      apply free.resolve_right
      intro blocked
      exact Outcome.noConfusion (complete.symm.trans blocked)
    apply stands_step
    · rfl
    · exact bound
    · exact .inl unheld
  · rename_i full
    exact ⟨rfl, .pending value bound (convert_blocked full)⟩
  · rename_i invalid
    have unheld : writer.remain = none := by
      apply free.resolve_right
      intro blocked
      exact Outcome.noConfusion (invalid.symm.trans blocked)
    exact .inl ⟨unheld, bound, fun _ => value⟩

theorem stands_free (free : writer.remain = none) (bound : writer.step ≤ 4) :
    (writer.fResume encoder newline size).Stands encoder size := by
  unfold fResume
  split
  · rename_i value
    exact stands_value value bound (.inl free)
  · rename_i value
    exact stands_step (Option.not_isSome_iff_eq_none.mp value) bound (.inl free)

/-- The conversion of `f__write`. -/
theorem stands_write (free : writer.Free) (line : Bool) (x : List χ) :
    (writer.writeValue encoder newline size line x).Stands encoder size := by
  unfold writeValue
  split
  · cases line with
    | true =>
        rw [if_pos rfl]
        apply stands_free
        · exact free.1
        · exact Nat.le_refl 4
    | false =>
        rw [if_neg Bool.false_ne_true]
        exact .inl free
  · rename_i full
    exact ⟨rfl, free.2.1, free.2.2, convert_blocked full⟩
  · exact .inl free

/-- `f__resume` where something is pending. -/
theorem stands_pends {within : Within χ} (pends : writer.Pends encoder size within) :
    (writer.fResume encoder newline size).Stands encoder size := by
  unfold fResume
  cases pends with
  | pending value step blocked =>
      rw [if_pos value]
      exact stands_value value step (.inr blocked)
  | newline value step blocked =>
      rw [value, Option.isSome_none, if_neg Bool.false_ne_true]
      apply stands_step value
      · omega
      · exact .inr (.inr (.inr ⟨step, blocked⟩))
  | reset value step =>
      rw [value, Option.isSome_none, if_neg Bool.false_ne_true]
      apply stands_step value
      · omega
      · exact .inr (.inr (.inl step))
  | last value step =>
      rw [value, Option.isSome_none, if_neg Bool.false_ne_true]
      apply stands_step value
      · omega
      · exact .inr (.inl step)

theorem resumes_reset : (writer.resumeReset encoder size).within.isSome := by
  unfold resumeReset
  split
  · rfl
  · rfl
  · rename_i invalid
    exact absurd invalid (encoder.reset _ _)

/-- The callback is called by `resume` wherever something is pending. -/
theorem resumes_of_pends {within : Within χ} (pends : writer.Pends encoder size within) :
    (writer.fResume encoder newline size).within.isSome := by
  unfold fResume
  cases pends with
  | pending value step blocked =>
      rw [if_pos value, resumeValue]
      have full : (writer.converted encoder size false).outcome = .full := blocked
      simp only [full]
      rfl
  | newline value step blocked =>
      rw [value, Option.isSome_none, if_neg Bool.false_ne_true, resumeStep]
      have full : (writer.converted encoder size false).outcome = .full := blocked
      simp only [step]
      rw [resumeNewline]
      simp only [full]
      rfl
  | reset value step =>
      rw [value, Option.isSome_none, if_neg Bool.false_ne_true, resumeStep]
      simp only [step]
      exact resumes_reset
  | last value step =>
      rw [value, Option.isSome_none, if_neg Bool.false_ne_true, resumeStep]
      simp only [step]
      rfl

theorem Pends.forget {within : Within χ} (pends : writer.Pends encoder size within)
    {other : Writer χ σ}
    (same : other =
      { writer with remain := other.remain, within := other.within, ended := other.ended }) :
    other.Pends encoder size within := by
  rw [same]
  cases pends with
  | pending value step blocked => exact .pending value step blocked
  | newline value step blocked => exact .newline value step blocked
  | reset value step => exact .reset value step
  | last value step => exact .last value step

/-- Where the callback throws, a resume goes on unless nothing is left to do. -/
theorem Stands.pends (stands : writer.Stands encoder size) (waits : writer.within.isSome)
    (careful : ¬writer.Writes) :
    writer.remain.isSome ∧ ∃ within, writer.Pends encoder size within := by
  obtain ⟨within, waits⟩ := Option.isSome_iff_exists.mp waits
  unfold Stands at stands
  rw [waits] at stands
  cases within with
  | value line x =>
      obtain ⟨held, bound, last, blocked⟩ := stands
      refine ⟨held, ?_⟩
      by_cases value : writer.value.isSome
      · exact ⟨_, .pending value bound blocked⟩
      · have none_ : writer.value = none := Option.not_isSome_iff_eq_none.mp value
        have other : writer.step ≠ 4 := fun four => value (last four)
        have busy : writer.step ≠ 0 := fun zero => careful ⟨⟨line, x, waits⟩, none_, zero⟩
        have cases_ : writer.step = 1 ∨ writer.step = 2 ∨ writer.step = 3 := by omega
        rcases cases_ with one | two | three
        · exact ⟨_, .last none_ one⟩
        · exact ⟨_, .reset none_ two⟩
        · exact ⟨_, .newline none_ three blocked⟩
  | _ => exact ⟨stands.1, _, stands.2⟩

theorem Stands.enter (stands : writer.Stands encoder size) (idle : writer.within = none)
    (call : Call χ) : (writer.enter encoder newline size call).Stands encoder size := by
  unfold Stands at stands
  rw [idle] at stands
  have kept : writer.Free ∨ writer.remain.isSome ∧
      ∃ within, ({ writer with ended := none } : Writer χ σ).Pends encoder size within := by
    rcases stands with free | ⟨held, within, pends⟩
    · exact .inl free
    · exact .inr ⟨held, within, pends.forget rfl⟩
  have required (held : writer.remain.isSome) :
      (({ writer with ended := none } : Writer χ σ).finish .required).Stands encoder size := by
    rcases kept with free | ⟨_, within, pends⟩
    · exact absurd held (by simp [free.1])
    · exact .inr ⟨held, within, pends.forget rfl⟩
  have unheld (free : ¬writer.remain.isSome) : writer.Free :=
    kept.resolve_right fun held => free held.1
  have writes : ∀ line value, (({ writer with ended := none } : Writer χ σ).fWrite encoder
      newline size line value).Stands encoder size := by
    intro line value
    unfold fWrite
    split
    · rename_i held
      exact required held
    · rename_i free
      cases value with
      | none => exact .inl (unheld free)
      | some x =>
          apply stands_write
          exact unheld free
  cases call with
  | write value => exact writes false value
  | writeLine value => exact writes true value
  | flush =>
      unfold Writer.enter fFlush
      simp only
      split
      · rename_i held
        exact required held
      · rename_i free
        apply stands_free
        · exact (unheld free).1
        · change 2 ≤ 4
          decide
  | resume =>
      rcases kept with free | ⟨_, within, pends⟩
      · apply stands_free
        · exact free.1
        · exact free.2.1
      · exact stands_pends pends

theorem Stands.giveUp (stands : writer.Stands encoder size) {within : Within χ}
    (waits : writer.within = some within) (remain : Nat) :
    ({ writer with remain := some remain }.giveUp within).Stands encoder size := by
  unfold Stands at stands
  rw [waits] at stands
  cases within with
  | value line x =>
      obtain ⟨_, bound, _, blocked⟩ := stands
      have step : (if line then 4 else writer.step) ≤ 4 := by
        split
        · exact Nat.le_refl 4
        · exact bound
      exact .inr ⟨rfl, .pending, .pending rfl step blocked⟩
  | _ => exact .inr ⟨rfl, _, stands.2.forget rfl⟩

theorem Stands.emptied (stands : writer.Stands encoder size) {within : Within χ}
    (waits : writer.within = some within) :
    (writer.emptied encoder newline size within).Stands encoder size := by
  unfold Stands at stands
  rw [waits] at stands
  cases within with
  | value line x =>
      obtain ⟨_, bound, last, _⟩ := stands
      apply stands_write
      exact ⟨rfl, bound, last⟩
  | pending =>
      cases stands.2 with
      | pending value step blocked => exact stands_value value step (.inl rfl)
  | newline =>
      cases stands.2 with
      | newline value step blocked => exact stands_newline value step (.inl rfl)
  | reset =>
      cases stands.2 with
      | reset value step => exact stands_reset value step
  | last =>
      cases stands.2 with
      | last value step =>
          have zero : writer.step - 1 = 0 := by rw [step]
          have free : writer.step - 1 ≤ 4 ∧ (writer.step - 1 = 4 → writer.value.isSome) := by
            rw [zero]
            exact ⟨Nat.zero_le 4, nofun⟩
          exact .inl ⟨rfl, free⟩

theorem Stands.act (stands : writer.Stands encoder size) {action : Action χ} {after : Writer χ σ}
    (acts : writer.act encoder newline size action = some after)
    (careful : action = .throws → ¬writer.Writes) : after.Stands encoder size := by
  unfold Writer.act at acts
  cases action with
  | call call =>
      simp only at acts
      split at acts
      · rename_i idle
        obtain rfl := Option.some.inj acts
        exact stands.enter (Option.isNone_iff_eq_none.mp idle) call
      · cases acts
  | reply n =>
      simp only at acts
      split at acts
      · rename_i within remain waits held
        split at acts
        · obtain rfl := Option.some.inj acts
          exact stands.giveUp waits (remain + n)
        · obtain rfl := Option.some.inj acts
          exact stands.emptied waits
      · cases acts
  | throws =>
      simp only at acts
      split at acts
      · rename_i waits
        obtain rfl := Option.some.inj acts
        obtain ⟨held, within, pends⟩ := stands.pends waits (careful rfl)
        exact .inr ⟨held, within, pends.forget rfl⟩
      · cases acts

theorem Reached.stands {shift : σ} (reached : Reached encoder newline size shift writer) :
    writer.Stands encoder size := by
  induction reached with
  | start => exact .inl ⟨rfl, Nat.zero_le 4, nofun⟩
  | act reached acts careful induction => exact induction.act acts careful

end

section

variable {encoder : Encoder χ σ} {newline : χ} {size : Nat} {writer : Writer χ σ}

def Quiet (writer : Writer χ σ) : Prop := writer.ended ≠ some .required

theorem quiet_finish (ended : Ended) (quiet : ended ≠ .required) :
    (writer.finish ended).Quiet :=
  fun same => quiet (Option.some.inj same)

theorem quiet_reset (quiet : writer.Quiet) : (writer.resumeReset encoder size).Quiet := by
  unfold resumeReset
  split
  · exact quiet
  · exact quiet
  · exact quiet_finish .threw nofun

theorem quiet_newline (quiet : writer.Quiet) : (writer.resumeNewline encoder size).Quiet := by
  unfold resumeNewline
  split
  · exact quiet_reset quiet
  · exact quiet
  · exact quiet_finish .threw nofun

theorem quiet_step (quiet : writer.Quiet) : (writer.resumeStep encoder newline size).Quiet := by
  unfold resumeStep
  split
  · exact quiet_newline quiet
  · exact quiet_newline quiet
  · exact quiet_reset quiet
  · exact quiet
  · exact quiet_finish (.returned true) nofun

theorem quiet_resume (quiet : writer.Quiet) : (writer.fResume encoder newline size).Quiet := by
  unfold fResume resumeValue
  split
  · split
    · exact quiet_step quiet
    · exact quiet
    · exact quiet_finish .threw nofun
  · exact quiet_step quiet

theorem quiet_write (quiet : writer.Quiet) (line : Bool) (x : List χ) :
    (writer.writeValue encoder newline size line x).Quiet := by
  unfold writeValue
  split
  · split
    · exact quiet_resume quiet
    · exact quiet_finish (.returned true) nofun
  · exact quiet
  · exact quiet_finish .threw nofun

theorem accepts_of_free (free : writer.remain = none) : writer.Accepts encoder newline size := by
  have quiet : ({ writer with ended := none } : Writer χ σ).Quiet := nofun
  have unheld : ¬writer.remain.isSome := by
    rw [free]
    exact Bool.false_ne_true
  constructor
  · intro line value
    unfold fWrite
    rw [if_neg unheld]
    cases value with
    | none => exact quiet_finish .threw nofun
    | some x =>
        apply quiet_write
        exact quiet
  · unfold fFlush
    rw [if_neg unheld]
    apply quiet_resume
    exact quiet

theorem Stands.recoverable (stands : writer.Stands encoder size) :
    writer.Recoverable encoder newline size := by
  intro idle
  unfold Stands at stands
  rw [idle] at stands
  rcases stands with ⟨free, _⟩ | ⟨_, within, pends⟩
  · have accepts : writer.Accepts encoder newline size := accepts_of_free free
    exact ⟨.inl accepts, fun stuck => accepts.2 stuck.flush⟩
  · have kept : ({ writer with ended := none } : Writer χ σ).Pends encoder size within :=
      pends.forget rfl
    have resumes : writer.Resumes encoder newline size := resumes_of_pends kept
    refine ⟨.inr resumes, fun stuck => ?_⟩
    unfold Resumes at resumes
    rw [stuck.resume] at resumes
    exact Bool.false_ne_true resumes

/-- A writer whose callback throws where the conversion of `f__write` has called it and
nothing else is left to do. -/
theorem stuck_of_writes (stands : writer.Stands encoder size) (writes : writer.Writes) :
    (writer.finish .threw).Stuck encoder newline size := by
  obtain ⟨⟨line, x, waits⟩, value, step⟩ := writes
  unfold Stands at stands
  rw [waits] at stands
  have held : writer.remain.isSome := stands.1
  constructor
  · intro line value
    unfold fWrite
    rw [if_pos (by exact held)]
    rfl
  · unfold fFlush
    rw [if_pos (by exact held)]
    rfl
  · unfold enter fResume resumeStep finish
    simp only [value, step]
    rfl

end

/-- While the callback does not throw where the conversion of `f__write` has called it and
nothing else is left to do, a writer takes the next `write` or `flush`, or `resume` calls
the callback. Where it throws there, the writer is stuck. -/
theorem recovers (encoder : Encoder χ σ) (newline : χ) (size : Nat) (shift : σ)
    (writer : Writer χ σ) (reached : Reached encoder newline size shift writer) :
    writer.Recoverable encoder newline size ∧
    ∀ action after, writer.act encoder newline size action = some after →
      (after.Recoverable encoder newline size ↔ (action = .throws → ¬writer.Writes)) := by
  have stands := reached.stands
  refine ⟨stands.recoverable, fun action after acts => ⟨?_, ?_⟩⟩
  · intro recoverable throws writes
    subst throws
    unfold act at acts
    simp only at acts
    split at acts
    · obtain rfl := Option.some.inj acts
      exact (recoverable rfl).2 (stuck_of_writes stands writes)
    · cases acts
  · intro careful
    exact (stands.act acts careful).recoverable

end Writer

def bytes : Nat → List Nat → Conversion Nat Unit
  | _, [] => ⟨.complete, 0, [], ()⟩
  | 0, c :: x => ⟨.full, 0, c :: x, ()⟩
  | room + 1, c :: x =>
      if c < 256 then { bytes room x with written := (bytes room x).written + 1 }
      else ⟨.invalid, 0, c :: x, ()⟩

theorem bytes_again (room : Nat) (x : List Nat) (full : (bytes room x).outcome = .full) :
    bytes (room - (bytes room x).written) (bytes room x).rest =
      ⟨.full, 0, (bytes room x).rest, ()⟩ := by
  induction room generalizing x with
  | zero =>
      cases x with
      | nil => cases full
      | cons c x => rfl
  | succ room induction =>
      cases x with
      | nil => cases full
      | cons c x =>
          by_cases narrow : c < 256
          · have step : bytes (room + 1) (c :: x) =
                { bytes room x with written := (bytes room x).written + 1 } := if_pos narrow
            rw [step] at full ⊢
            simp only [Nat.add_sub_add_right]
            exact induction x full
          · rw [bytes, if_neg narrow] at full
            cases full

def latin : Encoder Nat Unit where
  iconv _ room input := (input.map (bytes room)).getD ⟨.complete, 0, [], ()⟩
  again := by
    intro shift room input full
    cases input with
    | none => cases full
    | some x => exact bytes_again room x full
  reset := by
    intro shift room
    exact Outcome.noConfusion

/-- A writer that is given more than its buffer takes, by a program that has gone on. -/
theorem recovers_long :
    ∃ writer, Writer.Reached latin 10 2 () writer ∧ writer.Writes ∧
      ¬(writer.finish .threw).Recoverable latin 10 2 := by
  have acts : (start ()).act latin 10 2 (.call (.write (some [1, 2, 3]))) =
      some ((start ()).enter latin 10 2 (.write (some [1, 2, 3]))) := rfl
  have reached := Writer.Reached.start.act acts nofun
  have writes : ((start ()).enter latin 10 2 (.write (some [1, 2, 3]))).Writes :=
    ⟨⟨false, [1, 2, 3], rfl⟩, rfl, rfl⟩
  refine ⟨_, reached, writes, fun recoverable => ?_⟩
  exact ((Writer.recovers latin 10 2 () _ reached).2 .throws _ rfl).mp recoverable rfl writes

/-- A text that is longer than the buffer is written, and the callback throws. -/
theorem stuck_by_throw :
    ∃ waiting after, (start ()).act latin 10 2 (.call (.write (some [1, 2, 3]))) = some waiting ∧
      waiting.act latin 10 2 .throws = some after ∧ after.within = none ∧
      after.Stuck latin 10 2 ∧ ¬(after.Accepts latin 10 2 ∨ after.Resumes latin 10 2) := by
  refine ⟨_, _, rfl, rfl, rfl, ⟨fun _ _ => rfl, rfl, rfl⟩, ?_⟩
  rintro (accepts | resumes)
  · exact accepts.2 rfl
  · exact Bool.false_ne_true resumes

end Xemmai.Recovery
