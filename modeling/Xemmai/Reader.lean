import Xemmai.Machine
import Mathlib.Data.List.Flatten
import Mathlib.Data.List.Infix

/-!
# Readers

`t_reader` keeps what a callback has given it in a buffer and converts one
character at a time into `v_c`. The callback gives the encoding of a text in
chunks of any length, tells that it would block whenever it likes, and tells the
end when there is nothing left. A call of `iconv` and a reply of the callback are
steps of their own. `iconv` is without a shift state; where its output is full
and what is left of its input is a part of a character, it may report either.
-/

namespace Xemmai

set_option autoImplicit false

namespace Reader

inductive Call
  | read (size : Nat)
  | readLine
  deriving DecidableEq, Repr

inductive Outcome (χ : Type)
  | string (s : List χ)
  | null
  | threw (message : String)
  deriving DecidableEq, Repr

/-- Where `f_get` stands: at its first test, in the `f_read` of that test, at
`iconv`, in the `f_read` for `EINVAL`, in the `f_read` at the end of its loop. -/
inductive Get
  | test
  | first
  | iconv
  | invalid
  | more
  deriving DecidableEq, Repr

inductive Reply (β : Type)
  | chunk (bytes : List β)
  | block
  | eof
  deriving DecidableEq, Repr

/-- How `iconv` ends. -/
inductive Status
  | converted
  | invalid
  | tooBig
  deriving DecidableEq, Repr

inductive Action (β : Type)
  | call (call : Call)
  | proceed
  | reply (reply : Reply β)
  deriving DecidableEq, Repr

end Reader

/-- The members, with the call that is being made and its characters so far, and
the history: what the callback has still to give, and each call with how it ended
and what was left in `v_c` then, the last first. The input is the `v_n0` bytes at
`v_p0`; the cell is `v_c`, as long as `v_n1` is zero. -/
structure Reader (χ β : Type) where
  input : List β
  cell : Option χ
  result : Int
  within : Option (Reader.Get × Reader.Call × List χ)
  source : List β
  outcomes : List (Reader.Call × Reader.Outcome χ × Option χ)

namespace Reader

variable {χ β : Type}

def start (source : List β) : Reader χ β where
  input := []
  cell := none
  result := 0
  within := none
  source := source
  outcomes := []

/-- A stateless decoder: the first character of some bytes and its length, if it
is complete; and whether a full output is reported before an incomplete input. -/
structure Decoder (χ β : Type) where
  decode : List β → Option (χ × Nat)
  full : List β → Bool

/-- `iconv` with a full output and some input left. -/
def Decoder.stop (decoder : Decoder χ β) (input : List β) : Status :=
  if (decoder.decode input).isNone ∧ decoder.full input = false then .invalid else .tooBig

/-- `iconv(v_cd, &v_p0, &v_n0, &v_p1, &v_n1)` -/
def Decoder.iconv (decoder : Decoder χ β) (input : List β) (cell : Option χ) :
    Status × List β × Option χ :=
  if input.isEmpty then (.converted, input, cell)
  else
    match cell with
    | some c => (decoder.stop input, input, some c)
    | none =>
      match decoder.decode input with
      | none => (.invalid, input, none)
      | some (c, n) =>
        if (input.drop n).isEmpty then (.converted, input.drop n, some c)
        else (decoder.stop (input.drop n), input.drop n, some c)

def finish (reader : Reader χ β) (call : Call) (outcome : Outcome χ) : Reader χ β :=
  { reader with
    within := none
    outcomes := (call, outcome, reader.cell) :: reader.outcomes }

def goto (reader : Reader χ β) (get : Get) (call : Call) (done : List χ) : Reader χ β :=
  { reader with within := some (get, call, done) }

/-- `f_get` returns `WEOF`. -/
def weof (reader : Reader χ β) (call : Call) (done : List χ) : Reader χ β :=
  if done.isEmpty then
    reader.finish call (if reader.result < 0 then .null else .string [])
  else reader.finish call (.string done)

section

variable [DecidableEq χ] (newline : χ)

/-- Whether `f_read` or `f_read_line` has what it wants. -/
def enough (call : Call) (c : χ) (done : List χ) : Bool :=
  match call with
  | .read size => decide (size ≤ done.length)
  | .readLine => decide (c = newline)

/-- `f_get` returns the character in `v_c`. -/
def got (reader : Reader χ β) (call : Call) (done : List χ) (c : χ) : Reader χ β :=
  let reader := { reader with cell := none }
  if enough newline call c (done ++ [c]) then reader.finish call (.string (done ++ [c]))
  else reader.goto .test call (done ++ [c])

def proceed (decoder : Decoder χ β) (reader : Reader χ β) : Option (Reader χ β) :=
  match reader.within with
  | some (.test, call, done) =>
    if reader.input.isEmpty then some (reader.goto .first call done)
    else some (reader.goto .iconv call done)
  | some (.iconv, call, done) =>
    let (status, input, cell) := decoder.iconv reader.input reader.cell
    let reader := { reader with input := input, cell := cell }
    match status, cell with
    | .invalid, _ => some (reader.goto .invalid call done)
    | .converted, none => some (reader.goto .more call done)
    | _, some c => some (reader.got newline call done c)
    | .tooBig, none => none
  | _ => none

/-- `f_read()` has returned `v_result`. -/
def resumed (reader : Reader χ β) (get : Get) (call : Call) (done : List χ) :
    Option (Reader χ β) :=
  match get with
  | .first =>
    if reader.result ≤ 0 then some (reader.weof call done)
    else some (reader.goto .iconv call done)
  | .invalid =>
    if reader.result < 0 then some (reader.weof call done)
    else if reader.result = 0 then some (reader.finish call (.threw "incomplete sequence."))
    else some (reader.goto .iconv call done)
  | .more =>
    if reader.result ≤ 0 then some (reader.weof call done)
    else some (reader.goto .iconv call done)
  | _ => none

variable [DecidableEq β] (size : Nat)

/-- The callback is offered the room behind the input, of a buffer of `size`. -/
def reply (reader : Reader χ β) (reply : Reply β) : Option (Reader χ β) :=
  match reader.within with
  | some (get, call, done) =>
    match reply with
    | .chunk bytes =>
      if bytes ≠ [] ∧ bytes.isPrefixOf reader.source ∧
          reader.input.length + bytes.length ≤ size then
        { reader with
          input := reader.input ++ bytes
          result := bytes.length
          source := reader.source.drop bytes.length }.resumed get call done
      else none
    | .block => { reader with result := -1 }.resumed get call done
    | .eof =>
      if reader.source.isEmpty then { reader with result := 0 }.resumed get call done else none
  | none => none

def step (decoder : Decoder χ β) (reader : Reader χ β) : Action β → Option (Reader χ β)
  | .call call =>
    if reader.within.isNone then
      match call with
      | .read 0 => some (reader.finish call (.string []))
      | _ => some (reader.goto .test call [])
    else none
  | .proceed => reader.proceed newline decoder
  | .reply reply => reader.reply size reply

end

/-- The decoder finds the characters of an encoding and tells where the last is
incomplete. -/
structure Decoder.Decodes (decoder : Decoder χ β) (encode : χ → List β) : Prop where
  nonempty : ∀ c, encode c ≠ []
  complete : ∀ c rest, decoder.decode (encode c ++ rest) = some (c, (encode c).length)
  short : ∀ c bytes, bytes <+: encode c → bytes ≠ encode c → decoder.decode bytes = none

def Outcome.chars : Outcome χ → List χ
  | .string s => s
  | _ => []

def text (reader : Reader χ β) : List χ :=
  reader.outcomes.reverse.flatMap fun entry => entry.2.1.chars

/-- A would-block finds no character decoded and not yet returned. -/
def Clear (reader : Reader χ β) : Action β → Prop
  | .reply .block => reader.cell = none
  | _ => True

instance (reader : Reader χ β) (action : Action β) : Decidable (reader.Clear action) := by
  unfold Clear
  split <;> infer_instance

def Proper (newline : χ) (call : Call) (s : List χ) : Prop :=
  match call with
  | .read size => s.length ≤ size
  | .readLine => newline ∉ s.dropLast

/-- The characters so far of a call that goes on. -/
def Going (newline : χ) (call : Call) (done : List χ) : Prop :=
  match call with
  | .read size => done.length < size
  | .readLine => newline ∉ done

def Told (newline : χ) (entry : Call × Outcome χ × Option χ) : Prop :=
  entry.2.2 = none ∧
    match entry.2.1 with
    | .string s => Proper newline entry.1 s
    | .null => True
    | .threw _ => False

def ongoing (reader : Reader χ β) : List χ :=
  match reader.within with
  | some (_, _, done) => done
  | none => []

def Stands (decoder : Decoder χ β) (newline : χ) (reader : Reader χ β) : Prop :=
  match reader.within with
  | none => reader.cell = none
  | some (.test, call, done) => reader.cell = none ∧ Going newline call done
  | some (.first, call, done) =>
    reader.cell = none ∧ reader.input = [] ∧ Going newline call done
  | some (.iconv, call, done) => reader.input ≠ [] ∧ Going newline call done
  | some (.invalid, call, done) =>
    reader.input ≠ [] ∧ decoder.decode reader.input = none ∧ Going newline call done
  | some (.more, _, _) => False

/-- The text is what has been returned, what the call has so far, what is in the
cell and what the bytes in the buffer and of the source encode. -/
def Splits (encode : χ → List β) (all : List χ) (reader : Reader χ β) (done : List χ) : Prop :=
  ∃ rest, all = reader.text ++ done ++ reader.cell.toList ++ rest ∧
    reader.input ++ reader.source = rest.flatMap encode

structure Sound (decoder : Decoder χ β) (encode : χ → List β) (newline : χ) (all : List χ)
    (reader : Reader χ β) : Prop where
  splits : reader.Splits encode all reader.ongoing
  stands : reader.Stands decoder newline
  told : ∀ entry ∈ reader.outcomes, Told newline entry

theorem Decoder.Decodes.step {decoder : Decoder χ β} {encode : χ → List β}
    (decodes : decoder.Decodes encode) {input source : List β} {rest : List χ}
    (split : input ++ source = rest.flatMap encode) (some_ : input ≠ []) :
    decoder.decode input = none ∧ source ≠ [] ∨
    ∃ c rest', rest = c :: rest' ∧ decoder.decode input = some (c, (encode c).length) ∧
      input.drop (encode c).length ++ source = rest'.flatMap encode := by
  cases rest with
  | nil => exact absurd (List.append_eq_nil_iff.mp split).1 some_
  | cons c rest =>
    rw [List.flatMap_cons, List.append_eq_append_iff] at split
    rcases split with ⟨more, encoded, source⟩ | ⟨more, shape, tail⟩
    · cases more with
      | nil =>
        rw [List.append_nil] at encoded
        refine Or.inr ⟨c, rest, rfl, ?_, ?_⟩
        · have found := decodes.complete c []
          rwa [List.append_nil, congrArg decoder.decode encoded] at found
        · rw [encoded, List.drop_length, List.nil_append, source, List.nil_append]
      | cons byte more =>
        refine Or.inl ⟨decodes.short c input ⟨_, encoded.symm⟩ ?_, ?_⟩
        · intro same
          rw [← same] at encoded
          exact absurd (List.self_eq_append_right.mp encoded) (List.cons_ne_nil _ _)
        · rw [source]
          exact List.cons_ne_nil _ _
    · refine Or.inr ⟨c, rest, rfl, ?_, ?_⟩
      · rw [shape]
        exact decodes.complete c more
      · rw [shape, List.drop_left, tail]

theorem Decoder.stop_invalid {decoder : Decoder χ β} {input : List β}
    (invalid : decoder.stop input = .invalid) : decoder.decode input = none := by
  unfold Decoder.stop at invalid
  split at invalid
  · rename_i none
    exact Option.isNone_iff_eq_none.mp none.1
  · exact absurd invalid (by simp)

/-- `iconv` takes at most one character off the input, and either the input is
then incomplete or there is a character in the cell. -/
theorem Decoder.Decodes.iconv {decoder : Decoder χ β} {encode : χ → List β}
    (decodes : decoder.Decodes encode) {input source : List β} {rest : List χ}
    (split : input ++ source = rest.flatMap encode) (some_ : input ≠ []) (cell : Option χ) :
    ∃ status input' cell', decoder.iconv input cell = (status, input', cell') ∧
      (∃ rest', cell.toList ++ rest = cell'.toList ++ rest' ∧
        input' ++ source = rest'.flatMap encode) ∧
      (status = .invalid ∧ input' ≠ [] ∧ decoder.decode input' = none ∨
        status ≠ .invalid ∧ cell'.isSome) := by
  have stops : ∀ {input' : List β}, input' ≠ [] →
      decoder.stop input' = .invalid ∧ input' ≠ [] ∧ decoder.decode input' = none ∨
        decoder.stop input' ≠ .invalid := by
    intro input' more
    by_cases invalid : decoder.stop input' = .invalid
    · exact Or.inl ⟨invalid, more, stop_invalid invalid⟩
    · exact Or.inr invalid
  have unempty : input.isEmpty = false := by simpa using some_
  unfold Decoder.iconv
  rw [if_neg (by simp [unempty])]
  cases cell with
  | some c =>
    refine ⟨_, _, _, rfl, ⟨rest, rfl, split⟩, ?_⟩
    exact (stops some_).imp_right fun invalid => ⟨invalid, rfl⟩
  | none =>
    rcases decodes.step split some_ with ⟨short, _⟩ | ⟨c, rest', rfl, found, left⟩
    · rw [short]
      exact ⟨_, _, _, rfl, ⟨rest, rfl, split⟩, Or.inl ⟨rfl, some_, short⟩⟩
    · simp only [found]
      split
      · exact ⟨_, _, _, rfl, ⟨rest', rfl, left⟩, Or.inr ⟨by simp, rfl⟩⟩
      · rename_i more
        refine ⟨_, _, _, rfl, ⟨rest', rfl, left⟩, ?_⟩
        exact (stops (by simpa using more)).imp_right fun invalid => ⟨invalid, rfl⟩

section

variable {decoder : Decoder χ β} {encode : χ → List β} {newline : χ} {all : List χ}
  {reader after : Reader χ β} {call : Call} {done : List χ} {size : Nat}

@[simp] theorem text_finish (outcome : Outcome χ) :
    (reader.finish call outcome).text = reader.text ++ outcome.chars := by
  simp [text, finish]

theorem proper_of_going (going : Going newline call done) : Proper newline call done := by
  cases call with
  | read size => exact Nat.le_of_lt going
  | readLine => exact fun member => going (List.mem_of_mem_dropLast member)

theorem Sound.finishes (splits : reader.Splits encode all done) (empty : reader.cell = none)
    (told : ∀ entry ∈ reader.outcomes, Told newline entry)
    {s : List χ} (same : s = done) (proper : Proper newline call s) :
    (reader.finish call (.string s)).Sound decoder encode newline all where
  splits := by
    obtain ⟨rest, whole, left⟩ := splits
    refine ⟨rest, ?_, left⟩
    simpa [ongoing, finish, text, Outcome.chars, same, empty] using whole
  stands := empty
  told := by
    intro entry member
    rcases List.mem_cons.mp member with rfl | earlier
    · exact ⟨empty, proper⟩
    · exact told entry earlier

theorem Sound.weofs (splits : reader.Splits encode all done) (empty : reader.cell = none)
    (told : ∀ entry ∈ reader.outcomes, Told newline entry) (going : Going newline call done) :
    (reader.weof call done).Sound decoder encode newline all := by
  unfold weof
  split
  · rename_i none
    rw [List.isEmpty_iff] at none
    subst none
    split
    · refine ⟨?_, empty, ?_⟩
      · obtain ⟨rest, whole, left⟩ := splits
        refine ⟨rest, ?_, left⟩
        simpa [ongoing, finish, text, Outcome.chars] using whole
      · intro entry member
        rcases List.mem_cons.mp member with rfl | earlier
        · exact ⟨empty, trivial⟩
        · exact told entry earlier
    · exact finishes splits empty told rfl (proper_of_going going)
  · exact finishes splits empty told rfl (proper_of_going going)

variable [DecidableEq χ]

/-- `f_get` returns a character. -/
theorem Sound.gets {c : χ} (splits : reader.Splits encode all done)
    (full : reader.cell = some c) (told : ∀ entry ∈ reader.outcomes, Told newline entry)
    (going : Going newline call done) :
    (reader.got newline call done c).Sound decoder encode newline all := by
  have moved : { reader with cell := none }.Splits encode all (done ++ [c]) := by
    obtain ⟨rest, whole, left⟩ := splits
    refine ⟨rest, ?_, left⟩
    simpa [full, text] using whole
  simp only [got]
  split
  · rename_i enough
    refine finishes moved rfl told rfl ?_
    cases call with
    | read size =>
      have bound : done.length < size := going
      simp only [Proper, List.length_append, List.length_singleton]
      omega
    | readLine =>
      have fresh : newline ∉ done := going
      simpa [Proper] using fresh
  · rename_i short
    refine ⟨moved, ⟨rfl, ?_⟩, told⟩
    cases call with
    | read size => simpa [enough, Going] using short
    | readLine =>
      have fresh : newline ∉ done := going
      simpa [enough, Going, fresh, eq_comm] using short

theorem Sound.proceeds (decodes : decoder.Decodes encode)
    (sound : reader.Sound decoder encode newline all)
    (taken : reader.proceed newline decoder = some after) :
    after.Sound decoder encode newline all := by
  have splits := sound.splits
  have stands := sound.stands
  have told := sound.told
  unfold Stands at stands
  cases within : reader.within with
  | none => simp [proceed, within] at taken
  | some state =>
    obtain ⟨get, call, done⟩ := state
    simp only [ongoing, within] at splits
    cases get with
    | test =>
      simp only [within] at stands
      simp only [proceed, within] at taken
      split at taken
      · rename_i empty
        obtain rfl := Option.some.inj taken
        exact ⟨splits, ⟨stands.1, List.isEmpty_iff.mp empty, stands.2⟩, told⟩
      · rename_i some_
        obtain rfl := Option.some.inj taken
        exact ⟨splits, ⟨by simpa [goto] using some_, stands.2⟩, told⟩
    | first => simp [proceed, within] at taken
    | iconv =>
      simp only [within] at stands
      obtain ⟨rest, whole, left⟩ := splits
      obtain ⟨status, input, cell, ran, ⟨rest', same, left'⟩, ends⟩ :=
        decodes.iconv left stands.1 reader.cell
      simp only [proceed, within, ran] at taken
      have splits : { reader with input := input, cell := cell }.Splits encode all done := by
        refine ⟨rest', ?_, left'⟩
        rw [List.append_assoc, same, ← List.append_assoc] at whole
        exact whole
      rcases ends with ⟨rfl, more, short⟩ | ⟨valid, some_⟩
      · obtain rfl := Option.some.inj taken
        exact ⟨splits, ⟨more, short, stands.2⟩, told⟩
      · obtain ⟨c, rfl⟩ := Option.isSome_iff_exists.mp some_
        have got : after = { reader with input := input, cell := some c }.got newline call
            done c := by
          cases status with
          | invalid => exact absurd rfl valid
          | converted => exact (Option.some.inj taken).symm
          | tooBig => exact (Option.some.inj taken).symm
        rw [got]
        exact gets splits rfl told stands.2
    | invalid => simp [proceed, within] at taken
    | more => simp [proceed, within] at taken

variable [DecidableEq β]

omit [DecidableEq χ] in
theorem Sound.replies (decodes : decoder.Decodes encode)
    (sound : reader.Sound decoder encode newline all) {reply : Reply β}
    (clear : reader.Clear (.reply reply)) (taken : reader.reply size reply = some after) :
    after.Sound decoder encode newline all := by
  have splits := sound.splits
  have stands := sound.stands
  have told := sound.told
  unfold Stands at stands
  cases within : reader.within with
  | none => simp [Reader.reply, within] at taken
  | some state =>
    obtain ⟨get, call, done⟩ := state
    simp only [ongoing, within] at splits
    simp only [within] at stands
    simp only [Reader.reply, within] at taken
    cases reply with
    | chunk bytes =>
      simp only [Option.ite_none_right_eq_some] at taken
      obtain ⟨⟨some_, offered, _⟩, taken⟩ := taken
      obtain ⟨source, shape⟩ := List.isPrefixOf_iff_prefix.mp offered
      have positive := List.length_pos_iff.mpr some_
      have moved : { reader with
          input := reader.input ++ bytes
          result := bytes.length
          source := reader.source.drop bytes.length }.Splits encode all done := by
        obtain ⟨rest, whole, left⟩ := splits
        refine ⟨rest, whole, ?_⟩
        simp only [← shape, List.drop_left]
        rw [List.append_assoc, shape, left]
      have goes : ∀ {next : Reader χ β}, Going newline call done →
          next = { reader with
            input := reader.input ++ bytes
            result := bytes.length
            source := reader.source.drop bytes.length }.goto .iconv call done →
          next.Sound decoder encode newline all := by
        rintro next going rfl
        exact ⟨moved, ⟨by simp [goto, some_], going⟩, told⟩
      cases get with
      | first =>
        simp only [resumed, if_neg (show ¬ (bytes.length : Int) ≤ 0 by omega)] at taken
        exact goes stands.2.2 (Option.some.inj taken).symm
      | invalid =>
        simp only [resumed, if_neg (show ¬ (bytes.length : Int) < 0 by omega),
          if_neg (show ¬ (bytes.length : Int) = 0 by omega)] at taken
        exact goes stands.2.2 (Option.some.inj taken).symm
      | more => exact absurd stands not_false
      | _ => simp [resumed] at taken
    | block =>
      have empty : reader.cell = none := clear
      have moved : { reader with result := -1 }.Splits encode all done := splits
      cases get with
      | first =>
        obtain rfl := Option.some.inj taken
        exact weofs moved empty told stands.2.2
      | invalid =>
        obtain rfl := Option.some.inj taken
        exact weofs moved empty told stands.2.2
      | more => exact absurd stands not_false
      | _ => simp [resumed] at taken
    | eof =>
      simp only [Option.ite_none_right_eq_some] at taken
      obtain ⟨over_, taken⟩ := taken
      cases get with
      | first =>
        obtain rfl := Option.some.inj taken
        exact weofs splits stands.1 told stands.2.2
      | invalid =>
        obtain ⟨rest, _, left⟩ := splits
        rcases decodes.step left stands.1 with ⟨_, more⟩ | ⟨c, _, _, found, _⟩
        · exact absurd (List.isEmpty_iff.mp over_) more
        · exact absurd (stands.2.1.symm.trans found) (by simp)
      | more => exact absurd stands not_false
      | _ => simp [resumed] at taken

theorem Sound.steps (decodes : decoder.Decodes encode)
    (sound : reader.Sound decoder encode newline all) {action : Action β}
    (clear : reader.Clear action)
    (taken : reader.step newline size decoder action = some after) :
    after.Sound decoder encode newline all := by
  cases action with
  | call call =>
    simp only [step, Option.ite_none_right_eq_some] at taken
    obtain ⟨idle, taken⟩ := taken
    rw [Option.isNone_iff_eq_none] at idle
    have splits := sound.splits
    have empty : reader.cell = none := by
      have stands := sound.stands
      simpa only [Stands, idle] using stands
    simp only [ongoing, idle] at splits
    split at taken
    · obtain rfl := Option.some.inj taken
      exact finishes splits empty sound.told rfl (Nat.le_refl 0)
    · rename_i nonzero
      obtain rfl := Option.some.inj taken
      refine ⟨splits, ⟨empty, ?_⟩, sound.told⟩
      cases call with
      | read size =>
        refine Nat.pos_of_ne_zero ?_
        rintro rfl
        exact nonzero rfl
      | readLine => exact List.not_mem_nil
  | proceed => exact sound.proceeds decodes taken
  | reply reply => exact sound.replies decodes clear taken

omit [DecidableEq χ] [DecidableEq β] in
theorem Sound.start (all : List χ) :
    (start (all.flatMap encode) : Reader χ β).Sound decoder encode newline all where
  splits := ⟨all, rfl, rfl⟩
  stands := rfl
  told _ member := absurd member List.not_mem_nil

omit [DecidableEq β] in
theorem proceed_outcomes (taken : reader.proceed newline decoder = some after) :
    after.outcomes = reader.outcomes ∨
      ∃ call s, s ≠ [] ∧ after.outcomes = (call, .string s, none) :: reader.outcomes := by
  have gets : ∀ (reader : Reader χ β) (call : Call) (done : List χ) (c : χ),
      (reader.got newline call done c).outcomes = reader.outcomes ∨
        ∃ s, s ≠ [] ∧ (reader.got newline call done c).outcomes =
          (call, .string s, none) :: reader.outcomes := by
    intro reader call done c
    simp only [got]
    split
    · exact Or.inr ⟨done ++ [c], by simp, rfl⟩
    · exact Or.inl rfl
  unfold proceed at taken
  split at taken
  · split at taken <;> exact Or.inl (Option.some.inj taken ▸ rfl)
  · rename_i call done _
    generalize decoder.iconv reader.input reader.cell = result at taken
    obtain ⟨status, input, cell⟩ := result
    cases cell with
    | none =>
      cases status with
      | invalid => exact Or.inl (Option.some.inj taken ▸ rfl)
      | converted => exact Or.inl (Option.some.inj taken ▸ rfl)
      | tooBig => exact absurd taken (by simp)
    | some c =>
      have ended := gets { reader with input := input, cell := some c } call done c
      cases status with
      | invalid => exact Or.inl (Option.some.inj taken ▸ rfl)
      | converted =>
        rw [Option.some.inj taken] at ended
        exact ended.imp_right fun ⟨s, more, same⟩ => ⟨call, s, more, same⟩
      | tooBig =>
        rw [Option.some.inj taken] at ended
        exact ended.imp_right fun ⟨s, more, same⟩ => ⟨call, s, more, same⟩
  · exact absurd taken (by simp)

omit [DecidableEq χ] [DecidableEq β] in
/-- `f_get` goes on, returns `WEOF` or throws. -/
theorem resumed_outcomes {get : Get} (taken : reader.resumed get call done = some after) :
    after.outcomes = reader.outcomes ∨
    after = reader.weof call done ∧ reader.result ≤ 0 ∧
      (get = .invalid → reader.result < 0) ∨
    after.outcomes =
      (call, .threw "incomplete sequence.", reader.cell) :: reader.outcomes := by
  cases get with
  | test => simp [resumed] at taken
  | iconv => simp [resumed] at taken
  | first =>
    simp only [resumed] at taken
    split at taken
    · exact Or.inr (Or.inl ⟨(Option.some.inj taken).symm, by assumption, nofun⟩)
    · exact Or.inl (Option.some.inj taken ▸ rfl)
  | more =>
    simp only [resumed] at taken
    split at taken
    · exact Or.inr (Or.inl ⟨(Option.some.inj taken).symm, by assumption, nofun⟩)
    · exact Or.inl (Option.some.inj taken ▸ rfl)
  | invalid =>
    simp only [resumed] at taken
    split at taken
    · rename_i negative
      exact Or.inr (Or.inl ⟨(Option.some.inj taken).symm, Int.le_of_lt negative,
        fun _ => negative⟩)
    · split at taken
      · exact Or.inr (Or.inr (Option.some.inj taken ▸ rfl))
      · exact Or.inl (Option.some.inj taken ▸ rfl)

omit [DecidableEq χ] [DecidableEq β] in
theorem weof_outcomes {call' : Call} {outcome : Outcome χ} {held : Option χ}
    (ended : (reader.weof call done).outcomes = (call', outcome, held) :: reader.outcomes) :
    call' = call ∧ (outcome = .null → done = [] ∧ reader.result < 0) ∧
      (outcome = .string [] → done = [] ∧ ¬ reader.result < 0) := by
  unfold weof at ended
  split at ended
  · rename_i none
    rw [List.isEmpty_iff] at none
    split at ended
    · rename_i negative
      simp only [finish, List.cons.injEq, Prod.mk.injEq, and_true] at ended
      obtain ⟨rfl, rfl, _⟩ := ended
      exact ⟨rfl, fun _ => ⟨none, negative⟩, nofun⟩
    · rename_i over_
      simp only [finish, List.cons.injEq, Prod.mk.injEq, and_true] at ended
      obtain ⟨rfl, rfl, _⟩ := ended
      exact ⟨rfl, nofun, fun _ => ⟨none, over_⟩⟩
  · rename_i more
    simp only [finish, List.cons.injEq, Prod.mk.injEq, and_true] at ended
    obtain ⟨rfl, rfl, _⟩ := ended
    refine ⟨rfl, nofun, fun same => absurd (Outcome.string.inj same) (by simpa using more)⟩

omit [DecidableEq χ] in
/-- A reply ends a call with nothing only if nothing was decoded: with null if it
would block, with the empty string at the end. -/
theorem reply_outcomes {reply : Reply β} (taken : reader.reply size reply = some after)
    {outcome : Outcome χ} {held : Option χ}
    (ended : after.outcomes = (call, outcome, held) :: reader.outcomes) :
    (outcome = .null → reply = .block ∧ ∃ get, reader.within = some (get, call, [])) ∧
    (outcome = .string [] → reply = .eof ∧ reader.source = [] ∧
      ∃ get, (get = .first ∨ get = .more) ∧ reader.within = some (get, call, [])) := by
  cases within : reader.within with
  | none => simp [Reader.reply, within] at taken
  | some state =>
    obtain ⟨get, call', done⟩ := state
    -- What `f_get` does next depends on `v_result` alone.
    have ends : ∀ replied : Reader χ β, replied.outcomes = reader.outcomes →
        replied.resumed get call' done = some after →
        (outcome = .null → replied.result < 0 ∧ call = call' ∧ done = []) ∧
        (outcome = .string [] → replied.result = 0 ∧ (get = .first ∨ get = .more) ∧
          call = call' ∧ done = []) := by
      intro replied same going
      rw [← same] at ended
      rcases resumed_outcomes going with still | ⟨rfl, bound, negative⟩ | threw
      · exact absurd (ended.symm.trans still) (List.cons_ne_self _ _)
      · obtain ⟨rfl, null, empty⟩ := weof_outcomes ended
        refine ⟨fun none => ⟨(null none).2, rfl, (null none).1⟩, fun none => ?_⟩
        obtain ⟨nothing, over_⟩ := empty none
        refine ⟨by omega, ?_, rfl, nothing⟩
        cases get with
        | first => exact Or.inl rfl
        | more => exact Or.inr rfl
        | invalid => exact absurd (negative rfl) over_
        | test => simp [resumed] at going
        | iconv => simp [resumed] at going
      · rw [threw] at ended
        simp only [List.cons.injEq, Prod.mk.injEq, and_true] at ended
        obtain ⟨_, rfl, _⟩ := ended
        exact ⟨nofun, nofun⟩
    simp only [Reader.reply, within] at taken
    cases reply with
    | chunk bytes =>
      simp only [Option.ite_none_right_eq_some] at taken
      obtain ⟨⟨some_, _⟩, taken⟩ := taken
      have positive := List.length_pos_iff.mpr some_
      obtain ⟨null, empty⟩ := ends _ (by rfl) taken
      refine ⟨fun none => ?_, fun none => ?_⟩
      · have negative : (bytes.length : Int) < 0 := (null none).1
        omega
      · have zero : (bytes.length : Int) = 0 := (empty none).1
        omega
    | block =>
      obtain ⟨null, empty⟩ := ends { reader with result := -1 } rfl (within ▸ taken)
      refine ⟨fun none => ?_, fun none => ?_⟩
      · obtain ⟨_, rfl, rfl⟩ := null none
        exact ⟨rfl, get, rfl⟩
      · have zero : (-1 : Int) = 0 := (empty none).1
        omega
    | eof =>
      simp only [Option.ite_none_right_eq_some] at taken
      obtain ⟨over_, taken⟩ := taken
      obtain ⟨null, empty⟩ := ends _ (by rfl) taken
      refine ⟨fun none => ?_, fun none => ?_⟩
      · have negative : (0 : Int) < 0 := (null none).1
        omega
      · obtain ⟨_, waiting, rfl, rfl⟩ := empty none
        exact ⟨rfl, List.isEmpty_iff.mp over_, get, waiting, rfl⟩

end

section

variable [DecidableEq χ] [DecidableEq β] {decoder : Decoder χ β} {newline : χ} {size : Nat}
  {reader after : Reader χ β}

/-- Only a reply ends a call with nothing, but for `f_read` of zero characters. -/
theorem step_outcomes {action : Action β} {call : Call} {outcome : Outcome χ}
    {held : Option χ} (taken : reader.step newline size decoder action = some after)
    (ended : after.outcomes = (call, outcome, held) :: reader.outcomes)
    (nothing : outcome = .null ∨ outcome = .string []) :
    outcome = .string [] ∧ action = .call (.read 0) ∨ ∃ reply, action = .reply reply := by
  cases action with
  | call call' =>
    simp only [step, Option.ite_none_right_eq_some] at taken
    obtain ⟨_, taken⟩ := taken
    split at taken
    · obtain rfl := Option.some.inj taken
      simp only [finish, List.cons.injEq, Prod.mk.injEq, and_true] at ended
      exact Or.inl ⟨ended.2.1.symm, rfl⟩
    · obtain rfl := Option.some.inj taken
      exact absurd ended.symm (List.cons_ne_self _ _)
  | proceed =>
    rcases proceed_outcomes taken with still | ⟨_, s, more, string⟩
    · exact absurd (ended.symm.trans still) (List.cons_ne_self _ _)
    · rw [string] at ended
      simp only [List.cons.injEq, Prod.mk.injEq, and_true] at ended
      obtain ⟨_, rfl, _⟩ := ended
      rcases nothing with null | empty
      · exact absurd null (by simp)
      · exact absurd (Outcome.string.inj empty) more
  | reply reply => exact Or.inr ⟨reply, rfl⟩

omit [DecidableEq χ] [DecidableEq β] in
/-- At the end of the source, a call that has nothing and is not in the `f_read` for
`EINVAL` leaves nothing of the text. -/
theorem Sound.ends {encode : χ → List β} {all : List χ} (decodes : decoder.Decodes encode)
    (sound : reader.Sound decoder encode newline all) {get : Get} {call : Call}
    (within : reader.within = some (get, call, []))
    (waiting : get = .first ∨ get = .more) (over_ : reader.source = []) :
    reader.text = all := by
  obtain ⟨rest, whole, left⟩ := sound.splits
  have stands := sound.stands
  rcases waiting with rfl | rfl
  · simp only [Stands, within] at stands
    have none : rest = [] := by
      rw [stands.2.1, over_] at left
      cases rest with
      | nil => rfl
      | cons c rest =>
        exact absurd (List.append_eq_nil_iff.mp left.symm).1 (decodes.nonempty c)
    rw [whole]
    simp [ongoing, within, stands.1, none]
  · simp [Stands, within] at stands

end

/-- What a reader does with the text whose encoding it is given, however that is
divided: the strings returned are the characters whose encodings have been
consumed, as long as the calls allow and with nothing thrown; null is returned
for a would-block with nothing decoded and the empty string at the end only. -/
structure Exact [DecidableEq χ] [DecidableEq β] (decoder : Decoder χ β)
    (encode : χ → List β) (newline : χ) (size : Nat) (all : List χ) (reader : Reader χ β) :
    Prop where
  ordered : reader.text <+: all
  consumed : reader.within = none →
    reader.text.flatMap encode ++ (reader.input ++ reader.source) = all.flatMap encode
  told : ∀ entry ∈ reader.outcomes, Told newline entry
  null : ∀ action after call held, reader.step newline size decoder action = some after →
    after.outcomes = (call, .null, held) :: reader.outcomes →
    action = .reply .block ∧ ∃ get, reader.within = some (get, call, [])
  empty : ∀ action after call held, reader.step newline size decoder action = some after →
    after.outcomes = (call, .string [], held) :: reader.outcomes →
    action = .call (.read 0) ∨ action = .reply .eof ∧ reader.text = all

/-- In every run in which no would-block finds a character that `iconv` has
decoded and `f_get` has not returned. -/
theorem chunks_exact [DecidableEq χ] [DecidableEq β] {decoder : Decoder χ β}
    {encode : χ → List β} (decodes : decoder.Decodes encode) (newline : χ) (size : Nat)
    (all : List χ) {actions : List (Action β)} {reader : Reader χ β}
    (reached : Machine.run (step newline size decoder) (start (all.flatMap encode)) actions =
      some reader)
    (clear : Machine.Along (step newline size decoder) Clear (start (all.flatMap encode))
      actions) : reader.Exact decoder encode newline size all := by
  have sound : reader.Sound decoder encode newline all :=
    Machine.run_along (Sound decoder encode newline all)
      (fun _ _ _ sound clear taken => sound.steps decodes clear taken)
      actions _ _ (.start all) clear reached
  obtain ⟨rest, whole, left⟩ := sound.splits
  refine ⟨⟨_, (by rw [whole, List.append_assoc, List.append_assoc])⟩, ?_, sound.told, ?_, ?_⟩
  · intro idle
    have stands := sound.stands
    simp only [Stands, idle] at stands
    rw [left, whole]
    simp [ongoing, idle, stands]
  · intro action after call held taken ended
    rcases step_outcomes taken ended (Or.inl rfl) with ⟨null, _⟩ | ⟨reply, rfl⟩
    · exact absurd null (by simp)
    · obtain ⟨rfl, get, within⟩ := (reply_outcomes taken ended).1 rfl
      exact ⟨rfl, get, within⟩
  · intro action after call held taken ended
    rcases step_outcomes taken ended (Or.inr rfl) with ⟨_, zero⟩ | ⟨reply, rfl⟩
    · exact Or.inl zero
    · obtain ⟨rfl, over_, get, waiting, within⟩ := (reply_outcomes taken ended).2 rfl
      exact Or.inr ⟨rfl, sound.ends decodes within waiting over_⟩

def encodeUcs2 (c : Fin 65536) : List Nat :=
  [c.val % 256, c.val / 256]

def ucs2 : Decoder (Fin 65536) Nat where
  decode
    | a :: b :: _ => some (Fin.ofNat 65536 (a + 256 * b), 2)
    | _ => none
  full bytes := decide (2 ≤ bytes.length)

theorem ucs2_decodes : ucs2.Decodes encodeUcs2 where
  nonempty _ := List.cons_ne_nil _ _
  complete c rest := by
    have same : Fin.ofNat 65536 (c.val % 256 + 256 * (c.val / 256)) = c := by
      ext
      simp only [Fin.val_ofNat]
      omega
    show some (Fin.ofNat 65536 (c.val % 256 + 256 * (c.val / 256)), 2) = some (c, 2)
    rw [same]
  short c bytes leading fewer := by
    match bytes with
    | [] => rfl
    | [_] => rfl
    | a :: b :: bytes =>
      refine absurd ?_ fewer
      have long := leading.length_le
      have none : bytes = [] := by simpa [encodeUcs2] using long
      rw [none] at leading ⊢
      exact leading.eq_of_length rfl

/-- A would-block in the middle of a character, and then the rest of a line. -/
def halves : List (Action Nat) :=
  [.call .readLine, .proceed, .reply (.chunk [0x41]), .proceed, .reply .block,
    .call .readLine, .proceed, .proceed, .reply (.chunk [0, 10, 0]), .proceed, .proceed,
    .proceed]

theorem line_read : ∃ reader : Reader (Fin 65536) Nat,
    Machine.run (step 10 8 ucs2) (start ([0x41, 10].flatMap encodeUcs2)) halves = some reader ∧
    reader.outcomes = [(.readLine, .string [0x41, 10], none), (.readLine, .null, none)] ∧
    reader.Exact ucs2 encodeUcs2 10 8 [0x41, 10] := by
  refine ⟨_, rfl, rfl, ?_⟩
  exact @chunks_exact _ _ _ _ ucs2 encodeUcs2 ucs2_decodes 10 8 [0x41, 10] halves _ rfl
    (by decide +kernel)

/-- The odd byte behind a character is told before the character is returned: the
call is null, and the character stays in `v_c`. -/
theorem null_for_a_character : ∃ reader : Reader (Fin 65536) Nat,
    Machine.run (step 10 8 ucs2) (start ([0x41, 0x42].flatMap encodeUcs2))
      [.call (.read 1), .proceed, .reply (.chunk [0x41, 0, 0x42]), .proceed,
        .reply .block] = some reader ∧
    reader.outcomes = [(.read 1, .null, some 0x41)] ∧
    ucs2.Decodes encodeUcs2 ∧
    ¬ reader.Exact ucs2 encodeUcs2 10 8 [0x41, 0x42] := by
  refine ⟨_, rfl, rfl, ucs2_decodes, ?_⟩
  intro exact_
  have empty := (exact_.told _ (List.mem_singleton.mpr rfl)).1
  exact absurd empty (Option.some_ne_none _)

end Reader

end Xemmai
