import Xemmai.Machine
import Mathlib.Data.List.Flatten
import Mathlib.Data.Nat.Basic

/-!
# Writers

`t_writer` converts strings into a buffer and hands the buffer to a callback that
may accept any part of what it is offered; where it accepts less, the call gives
up and a later call goes on from there. What happens between two replies of the
callback is one step. The encoder is `iconv` without a shift state: it converts
one character after another and stops at the first that has no room.
-/

namespace Xemmai

set_option autoImplicit false

namespace Writer

inductive Call (χ : Type)
  | write (value : List χ)
  | writeLine (value : List χ)
  | flush
  | resume
  deriving DecidableEq, Repr

inductive Outcome
  | returned (result : Bool)
  | threw (message : String)
  deriving DecidableEq, Repr

/-- Which `f_write` the callback is called from: the conversion of `f__write`
within `f_write` or `f_write_line`, that of `v_value` or of the newline in
`f__resume`, or the end of `f__resume`. -/
inductive Within (χ : Type)
  | value (line : Bool) (x : List χ)
  | pending
  | newline
  | last
  deriving DecidableEq, Repr

end Writer

/-- The members, the call that is being made, and the history: what the callback
has accepted each time, the text of the calls that have not thrown, and each call
with the `v_step` that it found and how it ended, the last first. The buffer is
what lies between its start and `v_p1`; `v_remain` is an offset, and `v_p0` what
is left to convert. -/
structure Writer (χ β : Type) where
  buffer : List β
  remain : Option Nat
  input : List χ
  value : Option (List χ)
  step : Nat
  within : Option (Writer.Within χ)
  call : Writer.Call χ
  entered : Nat
  delivered : List (List β)
  accepted : List χ
  outcomes : List (Writer.Call χ × Nat × Writer.Outcome)

namespace Writer

variable {χ β : Type}

def start : Writer χ β where
  buffer := []
  remain := none
  input := []
  value := none
  step := 0
  within := none
  call := .resume
  entered := 0
  delivered := []
  accepted := []
  outcomes := []

/-- What `iconv` writes into the room there is, and what it leaves. -/
def iconv (encode : χ → List β) : Nat → List χ → List β × List χ
  | _, [] => ([], [])
  | room, c :: input =>
    if (encode c).length ≤ room then
      let (output, rest) := iconv encode (room - (encode c).length) input
      (encode c ++ output, rest)
    else ([], c :: input)

def finish (writer : Writer χ β) (outcome : Outcome) : Writer χ β :=
  { writer with
    within := none
    outcomes := (writer.call, writer.entered, outcome) :: writer.outcomes }

/-- `f_write()` calls the callback. -/
def wait (writer : Writer χ β) (within : Within χ) : Writer χ β :=
  { writer with
    remain := some (writer.remain.getD 0)
    within := some within }

section

variable (encode : χ → List β) (newline : χ) (size : Nat)

/-- `iconv(v_cd, &v_p0, &v_n0, &v_p1, &v_n1)` -/
def convert (writer : Writer χ β) : Writer χ β :=
  { writer with
    buffer := writer.buffer ++ (iconv encode (size - writer.buffer.length) writer.input).1
    input := (iconv encode (size - writer.buffer.length) writer.input).2 }

/-- `f__resume` from `case 2` on; `iconv` with null writes nothing. -/
def resumeLast (writer : Writer χ β) : Writer χ β :=
  { writer with step := writer.step - 1 }.wait .last

/-- `f__resume` from `case 3` on, and the loop of its `f_write`. -/
def resumeNewline (writer : Writer χ β) : Writer χ β :=
  let writer := writer.convert encode size
  if writer.input = [] then { writer with step := writer.step - 1 }.resumeLast
  else writer.wait .newline

/-- The `switch` of `f__resume`. -/
def resumeStep (writer : Writer χ β) : Writer χ β :=
  match writer.step with
  | 4 => { writer with input := [newline], step := writer.step - 1 }.resumeNewline encode size
  | 3 => writer.resumeNewline encode size
  | 2 => writer.resumeLast
  | 1 => writer.wait .last
  | _ => writer.finish (.returned true)

/-- `f__resume` in front of its first test, and the loop of that `f_write`. -/
def resumeValue (writer : Writer χ β) : Writer χ β :=
  let writer := writer.convert encode size
  if writer.input = [] then { writer with value := none }.resumeStep encode newline size
  else writer.wait .pending

def fResume (writer : Writer χ β) : Writer χ β :=
  if writer.value.isSome then writer.resumeValue encode newline size
  else writer.resumeStep encode newline size

/-- The loop of the `f_write` of `f__write`, and what follows its success. -/
def writeValue (writer : Writer χ β) (line : Bool) (x : List χ) : Writer χ β :=
  let writer := writer.convert encode size
  if writer.input = [] then
    if line then { writer with step := 4 }.fResume encode newline size
    else writer.finish (.returned true)
  else writer.wait (.value line x)

/-- `f_write` and `f_write_line` -/
def fWrite (writer : Writer χ β) (line : Bool) (x : List χ) : Writer χ β :=
  if writer.remain.isSome then writer.finish (.threw "resume required.")
  else
    { writer with
      input := x
      accepted := writer.accepted ++ x ++ if line then [newline] else []
      }.writeValue encode newline size line x

def fFlush (writer : Writer χ β) : Writer χ β :=
  if writer.remain.isSome then writer.finish (.threw "resume required.")
  else { writer with step := 2 }.fResume encode newline size

def enter (writer : Writer χ β) (call : Call χ) : Writer χ β :=
  let writer := { writer with call := call, entered := writer.step }
  match call with
  | .write value => writer.fWrite encode newline size false value
  | .writeLine value => writer.fWrite encode newline size true value
  | .flush => writer.fFlush encode newline size
  | .resume => writer.fResume encode newline size

/-- `f_write()` after the callback has accepted all it was offered. -/
def emptied (writer : Writer χ β) (within : Within χ) : Writer χ β :=
  let writer := { writer with buffer := [], remain := none }
  match within with
  | .value line x => writer.writeValue encode newline size line x
  | .pending => writer.resumeValue encode newline size
  | .newline => writer.resumeNewline encode size
  | .last => { writer with step := writer.step - 1 }.finish (.returned true)

/-- `f_write()` has returned false. -/
def giveUp (writer : Writer χ β) (within : Within χ) : Writer χ β :=
  match within with
  | .value line x =>
    { writer with
      value := some x
      step := if line then 4 else writer.step }.finish (.returned false)
  | _ => writer.finish (.returned false)

/-- The callback accepts `n` of the bytes it is offered. -/
def reply (writer : Writer χ β) (n : Nat) : Option (Writer χ β) :=
  match writer.within, writer.remain with
  | some within, some remain =>
    if remain + n ≤ writer.buffer.length then
      let writer := { writer with
        remain := some (remain + n)
        delivered := writer.delivered ++ [(writer.buffer.drop remain).take n] }
      if remain + n < writer.buffer.length then some (writer.giveUp within)
      else some (writer.emptied encode newline size within)
    else none
  | _, _ => none

inductive Action (χ : Type)
  | call (call : Call χ)
  | reply (n : Nat)
  deriving DecidableEq, Repr

def act (writer : Writer χ β) : Action χ → Option (Writer χ β)
  | .call call =>
    if writer.within.isNone then some (writer.enter encode newline size call) else none
  | .reply n => writer.reply encode newline size n

end

/-- The calls that return true only with everything delivered: `flush`,
`write_line`, and a `resume` that has found one of them unfinished. -/
def Completes (call : Call χ) (entered : Nat) : Prop :=
  match call with
  | .write _ => False
  | .writeLine _ => True
  | .flush => True
  | .resume => entered ≠ 0

def Call.text (newline : χ) : Call χ → List χ
  | .write value => value
  | .writeLine value => value ++ [newline]
  | _ => []

def told (newline : χ) : List (Call χ × Nat × Outcome) → List χ
  | [] => []
  | (call, _, .returned _) :: earlier => told newline earlier ++ call.text newline
  | (_, _, .threw _) :: earlier => told newline earlier

section

variable (encode : χ → List β)

theorem iconv_append (room : Nat) (input : List χ) :
    (iconv encode room input).1 ++ (iconv encode room input).2.flatMap encode =
      input.flatMap encode := by
  induction input generalizing room with
  | nil => rfl
  | cons c input ih =>
    rw [iconv]
    split
    · rw [List.flatMap_cons, List.append_assoc, ih]
    · rfl

theorem iconv_length (room : Nat) (input : List χ) :
    (iconv encode room input).1.length ≤ room := by
  induction input generalizing room with
  | nil => exact Nat.zero_le _
  | cons c input ih =>
    rw [iconv]
    split
    · have rest := ih (room - (encode c).length)
      rw [List.length_append]
      omega
    · exact Nat.zero_le _

theorem iconv_stops (room : Nat) (input : List χ) {c : χ} {rest : List χ}
    (left : (iconv encode room input).2 = c :: rest) :
    room < (iconv encode room input).1.length + (encode c).length := by
  induction input generalizing room with
  | nil => simp [iconv] at left
  | cons first input ih =>
    rw [iconv] at left ⊢
    split at left
    · rename_i room'
      rw [if_pos room', List.length_append]
      have rest := ih (room - (encode first).length) left
      omega
    · rename_i full
      rw [if_neg full]
      obtain ⟨rfl, _⟩ := List.cons.inj left
      simp only [List.length_nil]
      omega

end

/-- The bytes accepted, those in the buffer and the encoding of what is still to
be converted are the encoding of all the text. -/
def Owes (encode : χ → List β) (writer : Writer χ β) (rest : List χ) : Prop :=
  writer.delivered.flatten ++ writer.buffer.drop (writer.remain.getD 0) ++
    rest.flatMap encode = writer.accepted.flatMap encode

/-- The first character to convert has no room. -/
def Blocked (encode : χ → List β) (size : Nat) (writer : Writer χ β) : Prop :=
  ∃ c rest, writer.input = c :: rest ∧ size - writer.buffer.length < (encode c).length

/-- The newline that `v_step` still asks for. -/
def tail (newline : χ) (line : Bool) : List χ :=
  if line then [newline] else []

/-- What is still to be done when no conversion of `f__write` is under way. -/
inductive Pends (encode : χ → List β) (newline : χ) (size : Nat) (writer : Writer χ β) :
    Within χ → Prop
  | pending {line} (value : writer.value.isSome)
      (step : writer.step = if line then 4 else 0)
      (blocked : writer.Blocked encode size)
      (owes : writer.Owes encode (writer.input ++ tail newline line)) : Pends _ _ _ _ .pending
  | newline (value : writer.value = none) (step : writer.step = 3)
      (blocked : writer.Blocked encode size) (owes : writer.Owes encode writer.input) :
      Pends _ _ _ _ .newline
  | last (value : writer.value = none) (step : writer.step = 1)
      (owes : writer.Owes encode []) : Pends _ _ _ _ .last

/-- Where a call waits for the callback, and where no call is under way. -/
def Stands (encode : χ → List β) (newline : χ) (size : Nat) (writer : Writer χ β) : Prop :=
  match writer.within with
  | some (.value line _) => writer.remain.isSome ∧ writer.value = none ∧ writer.step = 0 ∧
      writer.Blocked encode size ∧
      writer.Owes encode (writer.input ++ tail newline line) ∧
      (line = false → ¬ Completes writer.call writer.entered)
  | some .pending => writer.remain.isSome ∧ writer.Pends encode newline size .pending ∧
      (writer.step = 0 → ¬ Completes writer.call writer.entered)
  | some within => writer.remain.isSome ∧ writer.Pends encode newline size within
  | none =>
    writer.remain = none ∧ writer.value = none ∧ writer.step = 0 ∧ writer.Owes encode [] ∨
    writer.remain.isSome ∧ ∃ within, writer.Pends encode newline size within

structure Sound (encode : χ → List β) (newline : χ) (size : Nat) (writer : Writer χ β) :
    Prop where
  remain : writer.remain.getD 0 ≤ writer.buffer.length
  stands : writer.Stands encode newline size
  told : writer.within = none → ∀ call entered earlier,
    writer.outcomes = (call, entered, .returned true) :: earlier → Completes call entered →
    writer.delivered.flatten = writer.accepted.flatMap encode

section

variable {encode : χ → List β} {newline : χ} {size : Nat} {writer : Writer χ β}

theorem convert_owes (size : Nat) (remain : writer.remain.getD 0 ≤ writer.buffer.length) {rest : List χ}
    (owes : writer.Owes encode (writer.input ++ rest)) :
    (writer.convert encode size).Owes encode ((writer.convert encode size).input ++ rest) := by
  unfold Owes convert at *
  rw [List.drop_append_of_le_length remain, ← owes, List.flatMap_append, List.flatMap_append,
    ← iconv_append encode (size - writer.buffer.length) writer.input]
  simp only [List.append_assoc]

theorem convert_blocked {within : Within χ} (left : (writer.convert encode size).input ≠ []) :
    ((writer.convert encode size).wait within).Blocked encode size := by
  obtain ⟨c, rest, shape⟩ := List.exists_cons_of_ne_nil left
  have stops := iconv_stops encode (size - writer.buffer.length) writer.input shape
  have fits := iconv_length encode (size - writer.buffer.length) writer.input
  refine ⟨c, rest, shape, ?_⟩
  simp only [wait, convert, List.length_append]
  omega

theorem convert_remain (remain : writer.remain.getD 0 ≤ writer.buffer.length) :
    (writer.convert encode size).remain.getD 0 ≤
      (writer.convert encode size).buffer.length := by
  simp only [convert, List.length_append]
  omega

theorem convert_of_blocked (blocked : writer.Blocked encode size) :
    (writer.convert encode size).input ≠ [] := by
  obtain ⟨c, rest, shape, full⟩ := blocked
  simp only [convert, shape, iconv, if_neg (Nat.not_le.mpr full)]
  exact List.cons_ne_nil _ _

theorem fResume_none (value : writer.value = none) :
    writer.fResume encode newline size = writer.resumeStep encode newline size := by
  simp [fResume, value]

theorem fResume_some (value : writer.value.isSome) :
    writer.fResume encode newline size = writer.resumeValue encode newline size := by
  simp [fResume, value]

theorem Sound.waits_last (remain : writer.remain.getD 0 ≤ writer.buffer.length)
    (value : writer.value = none) (step : writer.step = 1) (owes : writer.Owes encode []) :
    (writer.wait .last).Sound encode newline size where
  remain := remain
  stands := ⟨rfl, .last value step owes⟩
  told := nofun

theorem Sound.resumes_newline (remain : writer.remain.getD 0 ≤ writer.buffer.length)
    (value : writer.value = none) (step : writer.step = 3)
    (owes : writer.Owes encode writer.input) :
    (writer.resumeNewline encode size).Sound encode newline size := by
  have owes' : writer.Owes encode (writer.input ++ []) := by rwa [List.append_nil]
  have converted := convert_owes size remain owes'
  rw [List.append_nil] at converted
  simp only [resumeNewline]
  split
  · rename_i empty
    rw [empty] at converted
    exact waits_last (convert_remain remain) value (by simp [convert, step]) converted
  · rename_i left
    exact ⟨convert_remain remain, ⟨rfl, .newline value step (convert_blocked left) converted⟩,
      nofun⟩

theorem Sound.ends (empty : writer.remain = none) (value : writer.value = none)
    (step : writer.step = 0) (owes : writer.Owes encode [])
    (complete : Completes writer.call writer.entered → writer.buffer = []) :
    (writer.finish (.returned true)).Sound encode newline size where
  remain := by simp [finish, empty]
  stands := Or.inl ⟨empty, value, step, owes⟩
  told := by
    intro _ call entered earlier last completes
    simp only [finish, List.cons.injEq, Prod.mk.injEq] at last
    obtain ⟨⟨rfl, rfl, _⟩, _⟩ := last
    simpa [Owes, finish, empty, complete completes] using owes

/-- `f__resume` from its `switch` on, where `v_value` is null. -/
theorem Sound.switches (remain : writer.remain.getD 0 ≤ writer.buffer.length)
    (value : writer.value = none)
    (step : writer.step = 4 ∧ writer.Owes encode [newline] ∨
      writer.step = 3 ∧ writer.Owes encode writer.input ∨
      writer.step = 2 ∧ writer.Owes encode [] ∨ writer.step = 1 ∧ writer.Owes encode [] ∨
      writer.step = 0 ∧ writer.Owes encode [] ∧ writer.remain = none ∧
        ¬ Completes writer.call writer.entered) :
    (writer.resumeStep encode newline size).Sound encode newline size := by
  unfold resumeStep
  rcases step with ⟨step, owes⟩ | ⟨step, owes⟩ | ⟨step, owes⟩ | ⟨step, owes⟩ |
    ⟨step, owes, empty, incomplete⟩
  · simp only [step]
    exact resumes_newline remain value rfl owes
  · simp only [step]
    exact resumes_newline remain value step owes
  · simp only [step]
    exact waits_last remain value (by simp [step]) owes
  · simp only [step]
    exact waits_last remain value step owes
  · simp only [step]
    exact ends empty value step owes fun completes => absurd completes incomplete

/-- `f__resume`, where the conversion of `v_value` goes on. -/
theorem Sound.resumes_value (remain : writer.remain.getD 0 ≤ writer.buffer.length)
    {line : Bool} (value : writer.value.isSome) (step : writer.step = if line then 4 else 0)
    (free : writer.remain = none ∨ writer.Blocked encode size)
    (owes : writer.Owes encode (writer.input ++ tail newline line))
    (incomplete : line = false → ¬ Completes writer.call writer.entered) :
    (writer.resumeValue encode newline size).Sound encode newline size := by
  have converted := convert_owes size remain owes
  simp only [resumeValue]
  split
  · rename_i empty
    have unheld : writer.remain = none :=
      free.resolve_right fun blocked => convert_of_blocked blocked empty
    rw [empty, List.nil_append] at converted
    refine switches (convert_remain remain) rfl ?_
    cases line with
    | true => exact Or.inl ⟨step, converted⟩
    | false =>
      exact Or.inr (Or.inr (Or.inr (Or.inr ⟨step, converted, unheld, incomplete rfl⟩)))
  · rename_i left
    refine ⟨convert_remain remain, ⟨rfl, .pending value step (convert_blocked left) converted, ?_⟩,
      nofun⟩
    intro none
    refine incomplete ?_
    cases line with
    | true => exact absurd (step.symm.trans none) (by simp)
    | false => rfl

/-- The conversion of `f__write`. -/
theorem Sound.writes_value (empty : writer.remain = none) (value : writer.value = none)
    (step : writer.step = 0) {line : Bool} {x : List χ}
    (owes : writer.Owes encode (writer.input ++ tail newline line))
    (incomplete : line = false → ¬ Completes writer.call writer.entered) :
    (writer.writeValue encode newline size line x).Sound encode newline size := by
  have remain : writer.remain.getD 0 ≤ writer.buffer.length := by simp [empty]
  have converted := convert_owes size remain owes
  simp only [writeValue]
  split
  · rename_i converts
    rw [converts, List.nil_append] at converted
    cases line with
    | true =>
      rw [if_pos rfl, fResume_none (by exact value)]
      apply switches
      · exact convert_remain remain
      · exact value
      · exact Or.inl ⟨rfl, converted⟩
    | false =>
      exact ends empty value step converted fun completes =>
        absurd completes (incomplete rfl)
  · rename_i left
    exact ⟨convert_remain remain,
      ⟨rfl, value, step, convert_blocked left, converted, incomplete⟩, nofun⟩

theorem Sound.throws (sound : writer.Sound encode newline size) (idle : writer.within = none)
    (call : Call χ) (entered : Nat) (message : String) :
    ({ writer with call := call, entered := entered }.finish (.threw message)).Sound
      encode newline size where
  remain := sound.remain
  stands := by
    have stands := sound.stands
    unfold Stands at stands ⊢
    rw [idle] at stands
    rcases stands with rest | ⟨held, within, pends⟩
    · exact Or.inl rest
    · refine Or.inr ⟨held, within, ?_⟩
      cases pends with
      | pending value step blocked owes => exact .pending value step blocked owes
      | newline value step blocked owes => exact .newline value step blocked owes
      | last value step owes => exact .last value step owes
  told := by
    intro _ call' entered' earlier last
    simp [finish] at last

theorem Sound.enters (sound : writer.Sound encode newline size) (idle : writer.within = none)
    (call : Call χ) : (writer.enter encode newline size call).Sound encode newline size := by
  have remain := sound.remain
  have stands := sound.stands
  unfold Stands at stands
  rw [idle] at stands
  have writes : ∀ line x, (line = false → ¬ Completes call writer.step) →
      ({ writer with call := call, entered := writer.step }.fWrite encode newline size
        line x).Sound encode newline size := by
    intro line x incomplete
    unfold fWrite
    split
    · exact sound.throws idle call _ _
    · rename_i free
      rcases stands with ⟨empty, value, step, owes⟩ | ⟨held, _⟩
      · apply writes_value
        · exact empty
        · exact value
        · exact step
        · unfold Owes at owes ⊢
          simp only [List.flatMap_nil, List.append_nil] at owes
          cases line <;> simp [tail, owes]
        · exact incomplete
      · exact absurd held free
  cases call with
  | write value => exact writes false value fun _ => not_false
  | writeLine value => exact writes true value nofun
  | flush =>
    simp only [enter, fFlush]
    split
    · exact sound.throws idle .flush _ _
    · rename_i free
      rcases stands with ⟨empty, value, step, owes⟩ | ⟨held, _⟩
      · rw [fResume_none (by exact value)]
        apply switches
        · exact remain
        · exact value
        · exact Or.inr (Or.inr (Or.inl ⟨rfl, owes⟩))
      · exact absurd held free
  | resume =>
    simp only [enter]
    rcases stands with ⟨empty, value, step, owes⟩ | ⟨held, within, pends⟩
    · rw [fResume_none (by exact value)]
      apply switches
      · exact remain
      · exact value
      · exact Or.inr (Or.inr (Or.inr (Or.inr ⟨step, owes, empty, fun other => other step⟩)))
    · cases pends with
      | @pending line value step blocked owes =>
        rw [fResume_some (by exact value)]
        apply resumes_value
        · exact remain
        · exact value
        · exact step
        · exact Or.inr blocked
        · exact owes
        · rintro rfl other
          exact other step
      | newline value step blocked owes =>
        rw [fResume_none (by exact value)]
        apply switches
        · exact remain
        · exact value
        · exact Or.inr (Or.inl ⟨step, owes⟩)
      | last value step owes =>
        rw [fResume_none (by exact value)]
        apply switches
        · exact remain
        · exact value
        · exact Or.inr (Or.inr (Or.inr (Or.inl ⟨step, owes⟩)))

theorem Owes.accept {rest : List χ} (owes : writer.Owes encode rest) {remain n : Nat}
    (held : writer.remain = some remain) :
    { writer with
      remain := some (remain + n)
      delivered := writer.delivered ++ [(writer.buffer.drop remain).take n] }.Owes encode
      rest := by
  unfold Owes at owes ⊢
  rw [held] at owes
  simp only [Option.getD_some, List.flatten_append, List.flatten_cons, List.flatten_nil,
    List.append_nil] at owes ⊢
  rw [← List.drop_drop, List.append_assoc writer.delivered.flatten, List.take_append_drop]
  exact owes

theorem Owes.empty {rest : List χ} (owes : writer.Owes encode rest)
    (all : writer.buffer.length ≤ writer.remain.getD 0) :
    { writer with buffer := [], remain := none }.Owes encode rest := by
  unfold Owes at owes ⊢
  rw [List.drop_of_length_le all] at owes
  exact owes

/-- `f_write()` returns false, and the call with it. -/
theorem Sound.gives_up (sound : writer.Sound encode newline size) {within : Within χ}
    (waiting : writer.within = some within) {remain n : Nat}
    (held : writer.remain = some remain) (part : remain + n < writer.buffer.length) :
    ({ writer with
      remain := some (remain + n)
      delivered := writer.delivered ++ [(writer.buffer.drop remain).take n]
      }.giveUp within).Sound encode newline size := by
  have stands := sound.stands
  unfold Stands at stands
  rw [waiting] at stands
  cases within with
  | value line x =>
    obtain ⟨_, value, step, blocked, owes, _⟩ := stands
    refine ⟨Nat.le_of_lt part, Or.inr ⟨rfl, .pending, ?_⟩, ?_⟩
    · exact .pending rfl (by simp [giveUp, finish, step]) blocked (owes.accept held)
    · simp [giveUp, finish]
  | pending =>
    obtain ⟨_, pends, _⟩ := stands
    cases pends with
    | pending value step blocked owes =>
      refine ⟨Nat.le_of_lt part, Or.inr ⟨rfl, .pending, ?_⟩, by simp [giveUp, finish]⟩
      exact .pending value step blocked (owes.accept held)
  | newline =>
    obtain ⟨_, pends⟩ := stands
    cases pends with
    | newline value step blocked owes =>
      refine ⟨Nat.le_of_lt part, Or.inr ⟨rfl, .newline, ?_⟩, by simp [giveUp, finish]⟩
      exact .newline value step blocked (owes.accept held)
  | last =>
    obtain ⟨_, pends⟩ := stands
    cases pends with
    | last value step owes =>
      refine ⟨Nat.le_of_lt part, Or.inr ⟨rfl, .last, ?_⟩, by simp [giveUp, finish]⟩
      exact .last value step (owes.accept held)

/-- `f_write()` returns true, and the call goes on. -/
theorem Sound.goes_on (sound : writer.Sound encode newline size) {within : Within χ}
    (waiting : writer.within = some within) {remain n : Nat}
    (held : writer.remain = some remain) (all : remain + n = writer.buffer.length) :
    ({ writer with
      remain := some (remain + n)
      delivered := writer.delivered ++ [(writer.buffer.drop remain).take n]
      }.emptied encode newline size within).Sound encode newline size := by
  have stands := sound.stands
  unfold Stands at stands
  rw [waiting] at stands
  have whole : ∀ {rest : List χ}, writer.Owes encode rest →
      { writer with
        buffer := []
        remain := none
        delivered := writer.delivered ++ [(writer.buffer.drop remain).take n] }.Owes
        encode rest :=
    fun owes => (owes.accept held).empty (Nat.le_of_eq all.symm)
  cases within with
  | value line x =>
    obtain ⟨_, value, step, blocked, owes, incomplete⟩ := stands
    apply writes_value
    · rfl
    · exact value
    · exact step
    · exact whole owes
    · exact incomplete
  | pending =>
    obtain ⟨_, pends, incomplete⟩ := stands
    cases pends with
    | pending value step blocked owes =>
      apply resumes_value
      · exact Nat.zero_le _
      · exact value
      · exact step
      · exact Or.inl rfl
      · exact whole owes
      · rintro rfl
        exact incomplete step
  | newline =>
    obtain ⟨_, pends⟩ := stands
    cases pends with
    | newline value step blocked owes =>
      apply resumes_newline
      · exact Nat.zero_le _
      · exact value
      · exact step
      · exact whole owes
  | last =>
    obtain ⟨_, pends⟩ := stands
    cases pends with
    | last value step owes =>
      apply ends
      · rfl
      · exact value
      · simp [step]
      · exact whole owes
      · exact fun _ => rfl

theorem Sound.acts (sound : writer.Sound encode newline size) {action : Action χ}
    {after : Writer χ β} (taken : writer.act encode newline size action = some after) :
    after.Sound encode newline size := by
  cases action with
  | call call =>
    simp only [act, Option.ite_none_right_eq_some, Option.some.injEq] at taken
    obtain ⟨idle, rfl⟩ := taken
    exact sound.enters (Option.isNone_iff_eq_none.mp idle) call
  | reply n =>
    simp only [act, reply] at taken
    split at taken
    · rename_i within remain waiting held
      split at taken
      · rename_i most
        split at taken
        · rename_i part
          exact Option.some.inj taken ▸ sound.gives_up waiting held part
        · rename_i whole
          exact Option.some.inj taken ▸ sound.goes_on waiting held (by omega)
      · exact absurd taken (by simp)
    · exact absurd taken (by simp)

theorem Sound.start : (start : Writer χ β).Sound encode newline size where
  remain := Nat.le_refl 0
  stands := Or.inl ⟨rfl, rfl, rfl, rfl⟩
  told := nofun

/-- What has been converted and not yet accepted comes after what has been. -/
theorem Sound.delivered (sound : writer.Sound encode newline size) :
    writer.delivered.flatten <+: writer.accepted.flatMap encode := by
  have all : ∃ rest, writer.Owes encode rest := by
    have stands := sound.stands
    have pends : ∀ {within}, writer.Pends encode newline size within →
        ∃ rest, writer.Owes encode rest := by
      intro within pends
      cases pends with
      | pending _ _ _ owes => exact ⟨_, owes⟩
      | newline _ _ _ owes => exact ⟨_, owes⟩
      | last _ _ owes => exact ⟨_, owes⟩
    unfold Stands at stands
    split at stands
    · exact ⟨_, stands.2.2.2.2.1⟩
    · exact pends stands.2.1
    · exact pends stands.2
    · rcases stands with rest | ⟨_, _, held⟩
      · exact ⟨_, rest.2.2.2⟩
      · exact pends held
  obtain ⟨rest, owes⟩ := all
  exact ⟨_, (List.append_assoc _ _ _).symm.trans owes⟩

end

section

variable (encode : χ → List β) (newline : χ) (size : Nat)

/-- The text accepted is that of the calls that have returned and of the one that goes on. -/
def Tells (writer : Writer χ β) : Prop :=
  writer.accepted = told newline writer.outcomes ++ writer.call.text newline

/-- What the text accepted is, as a call goes on or not. -/
def Told (writer : Writer χ β) : Prop :=
  match writer.within with
  | some _ => writer.Tells newline
  | none => writer.accepted = told newline writer.outcomes

variable {newline} {writer : Writer χ β}

theorem Tells.finish (tells : writer.Tells newline) (result : Bool) :
    (writer.finish (.returned result)).Told newline :=
  tells

theorem Tells.wait (tells : writer.Tells newline) (within : Within χ) :
    (writer.wait within).Told newline :=
  tells

theorem Tells.resumeNewline (tells : writer.Tells newline) :
    (writer.resumeNewline encode size).Told newline := by
  simp only [Writer.resumeNewline, resumeLast]
  split
  · exact tells.wait .last
  · exact tells.wait .newline

theorem Tells.resumeStep (tells : writer.Tells newline) :
    (writer.resumeStep encode newline size).Told newline := by
  unfold Writer.resumeStep
  split
  · exact Tells.resumeNewline encode size tells
  · exact tells.resumeNewline encode size
  · exact tells.wait .last
  · exact tells.wait .last
  · exact tells.finish true

theorem Tells.resumeValue (tells : writer.Tells newline) :
    (writer.resumeValue encode newline size).Told newline := by
  simp only [Writer.resumeValue]
  split
  · exact Tells.resumeStep encode size tells
  · exact tells.wait .pending

theorem Tells.fResume (tells : writer.Tells newline) :
    (writer.fResume encode newline size).Told newline := by
  unfold Writer.fResume
  split
  · exact tells.resumeValue encode size
  · exact tells.resumeStep encode size

theorem Tells.writeValue (tells : writer.Tells newline) (line : Bool) (x : List χ) :
    (writer.writeValue encode newline size line x).Told newline := by
  simp only [Writer.writeValue]
  split
  · cases line with
    | true => exact Tells.fResume encode size tells
    | false => exact tells.finish true
  · exact tells.wait (.value line x)

theorem Told.enter (held : writer.Told newline) (idle : writer.within = none) (call : Call χ) :
    (writer.enter encode newline size call).Told newline := by
  unfold Told at held
  rw [idle] at held
  have begins (entered : Nat) (silent : call.text newline = []) :
      ({ writer with call := call, entered := entered } : Writer χ β).Tells newline := by
    unfold Tells
    rw [silent, List.append_nil]
    exact held
  have writes (line : Bool) (x : List χ)
      (text : call.text newline = x ++ if line then [newline] else []) :
      ({ writer with call := call, entered := writer.step }.fWrite encode newline size
        line x).Told newline := by
    unfold fWrite
    split
    · exact held
    · apply Tells.writeValue
      simp only [Tells, text, held, List.append_assoc]
  cases call with
  | write value => exact writes false value (List.append_nil value).symm
  | writeLine value => exact writes true value rfl
  | flush =>
    simp only [Writer.enter, fFlush]
    split
    · exact held
    · exact Tells.fResume encode size (begins writer.step rfl)
  | resume => exact (begins writer.step rfl).fResume encode size

theorem Told.reply (held : writer.Told newline) {n : Nat} {after : Writer χ β}
    (taken : writer.reply encode newline size n = some after) : after.Told newline := by
  simp only [Writer.reply] at taken
  split at taken
  · rename_i within remain waiting _
    unfold Told at held
    rw [waiting] at held
    have tells : writer.Tells newline := held
    split at taken
    · split at taken <;> obtain rfl := Option.some.inj taken
      · unfold giveUp
        split <;> exact tells.finish false
      · cases within with
        | value line x =>
          apply Tells.writeValue
          exact tells
        | pending =>
          apply Tells.resumeValue
          exact tells
        | newline =>
          apply Tells.resumeNewline
          exact tells
        | last => exact tells.finish true
    · exact absurd taken (by simp)
  · exact absurd taken (by simp)

/-- The history is what the calls say: the text of those that have returned, in their order,
and of the one that waits for the callback. -/
theorem accepted_told {actions : List (Action χ)} {writer : Writer χ β}
    (reached : Machine.run (act encode newline size) start actions = some writer) :
    writer.accepted = told newline writer.outcomes ++
      if writer.within.isSome then writer.call.text newline else [] := by
  have held : writer.Told newline := by
    have begins : (start : Writer χ β).Told newline := rfl
    refine Machine.run_invariant (Told newline) begins ?_ reached
    intro before action after held taken
    cases action with
    | call call =>
      simp only [act, Option.ite_none_right_eq_some, Option.some.injEq] at taken
      obtain ⟨idle, rfl⟩ := taken
      exact held.enter encode size (Option.isNone_iff_eq_none.mp idle) call
    | reply n => exact held.reply encode size taken
  unfold Told at held
  cases waiting : writer.within with
  | none =>
    rw [waiting] at held
    simpa using held
  | some within =>
    rw [waiting] at held
    rw [Option.isSome_some, if_pos rfl]
    exact held

end

end Writer

end Xemmai
