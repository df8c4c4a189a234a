import Mathlib.Logic.Function.Basic
import Xemmai.Inheritance
import Xemmai.Value

/-!
# Field accesses

`f_get`, `f_bind`, `f_put`, `f_has` and `f_invoke` of `t_type` with the index that the
instruction keeps from its last execution, and the lookups without it.
-/

namespace Xemmai

set_option autoImplicit false

namespace TType

variable {F ι κ : Type} [LinearOrder κ]

/-- `i < v_fields && f_fields()[i].first == a_key` -/
def holds {ν : Type} (type : TType κ ν) (i : Nat) (key : κ) : Bool :=
  type.keys[i]? = some key

/-- `f_fields()[i].second` -/
def value (type : TType κ (Value F ι)) (i : Nat) : Value F ι :=
  (type.fields[i]?.bind Prod.snd).getD .null

/-- `a_index + v_instance_fields` -/
def shift {ν : Type} (type : TType κ ν) (index : Nat) : Nat :=
  (index + type.instanceFields) % 2 ^ 64

def place {ν : Type} (type : TType κ ν) (key : κ) : Option Nat := type.keys.idxOf? key

theorem Laid.place_of_holds {ν : Type} {type : TType κ ν} (laid : type.Laid) {i : Nat} {key : κ}
    (holds : type.holds i key) :
    type.place key = some i := by
  have here : type.keys[i]? = some key := of_decide_eq_true holds
  obtain ⟨short, equal⟩ := List.getElem?_eq_some_iff.mp here
  unfold place
  rw [List.idxOf?_eq_some_iff]
  refine ⟨short, equal, ?_⟩
  intro j before twice
  have place : type.keys[j]? = some key :=
    List.getElem?_eq_some_iff.mpr ⟨before.trans short, twice⟩
  have position := (List.getElem?_inj short laid.distinct).mp (here.trans place.symm)
  omega

theorem Laid.index_of_place {ν : Type} {type : TType κ ν} (laid : type.Laid) (key : κ) :
    (∃ i < type.size, type.place key = some i ∧ type.index key = i ∧ type.holds i key) ∨
      (type.place key = none ∧ type.index key = type.size) := by
  rcases laid.index_eq key with ⟨member, place⟩ | ⟨absent, none⟩
  · left
    have holds : type.holds (type.index key) key := decide_eq_true place
    obtain ⟨short, _⟩ := List.getElem?_eq_some_iff.mp place
    refine ⟨type.index key, ?_, laid.place_of_holds holds, rfl, holds⟩
    rw [keys, List.length_map] at short
    exact short
  · right
    refine ⟨?_, none⟩
    exact List.idxOf?_eq_none_iff.mpr absent

end TType

namespace Access

/-- What is thrown: a text, or that an argument is no symbol. -/
inductive Refusal
  | message (text : String)
  | mustBeSymbol (name : String)
  deriving DecidableEq, Repr

/-- The functions in `v_get` and `v_put` of a type. -/
inductive Hooks
  | plain
  | class_
  | builder
  deriving DecidableEq, Repr

/-- A type whose fields are laid out, and are in memory with 16 bytes for each. -/
structure Typed (κ ν : Type) [LinearOrder κ] extends TType κ ν where
  laid : toTType.Laid
  fits : 16 * toTType.size < 2 ^ 64
  hooks : Hooks
  bindable : Bool

/-- What the accesses read and write: the types of the values, the fields of the instances,
the classes, and for a builder `v_fields`, which is null when it is disposed. -/
structure Objects (F ι κ : Type) [LinearOrder κ] where
  type : Value F ι → Typed κ (Value F ι)
  fields : Value F ι → Nat → Value F ι
  class_ : ι → Typed κ (Value F ι)
  builder : ι → Option (Fields κ (Value F ι))
  owned : ι → Bool
  symbol : κ → Option String

/-- What an access yields: a value, a new `t_method`, the slots `a_stack[0]` and `a_stack[1]`,
whether there is the field, or what is to be called, with `a_stack[1]` if that is set. -/
inductive Answer (F ι : Type)
  | value (value : Value F ι)
  | method (function : Value F ι) (self : Value F ι)
  | bound (function : Value F ι) (self : Value F ι)
  | done
  | boolean (has : Bool)
  | call (function : Value F ι) (self : Option (Value F ι))

/-- How an access ends, with the index that it leaves in the instruction. -/
structure Reply (F ι κ : Type) [LinearOrder κ] where
  result : Except Refusal (Answer F ι)
  objects : Objects F ι κ
  index : Nat

/-- The accesses of the instructions. -/
inductive Request (F ι : Type)
  | get
  | bind
  | put (value : Value F ι)
  | has
  | invoke

variable {F ι κ : Type} [LinearOrder κ]

namespace Objects

variable (objects : Objects F ι κ)

/-- `f_is_bindable` -/
def bindable (value : Value F ι) : Bool := value.isObject && (objects.type value).bindable

/-- `f_throw_undefined_field` -/
def undefinedField (key : κ) : Refusal :=
  match objects.symbol key with
  | none => .mustBeSymbol "key"
  | some name => .message ("undefined field: " ++ name)

/-- Assigning to `a_this->f_fields()[i]`. -/
def setField [DecidableEq F] [DecidableEq ι] (this : Value F ι) (i : Nat) (value : Value F ι) :
    Objects F ι κ :=
  let fields := Function.update (objects.fields this) i value
  { objects with fields := Function.update objects.fields this fields }

/-- The checks of `f_do_get` and `f_do_put` of a builder. -/
def openBuilder (this : Value F ι) (key : κ) : Except Refusal (ι × Fields κ (Value F ι)) :=
  match this with
  | .object object =>
      if objects.owned object then
        match objects.builder object with
        | none => .error (.message "already disposed.")
        | some fields =>
            match objects.symbol key with
            | none => .error (.mustBeSymbol "key")
            | some _ => .ok (object, fields)
      else .error (.message "not owned.")
  | _ => .error (.message "not supported.")

def setBuilder [DecidableEq ι] (object : ι) (fields : Fields κ (Value F ι)) : Objects F ι κ :=
  { objects with builder := Function.update objects.builder object (some fields) }

end Objects

section

variable [DecidableEq F] [DecidableEq ι] (objects : Objects F ι κ) (type : Typed κ (Value F ι))
  (this : Value F ι) (key : κ) (index : Nat)

/-- `f_do_get` of `t_class`; a class is an object. -/
def classGet : Reply F ι κ :=
  match this with
  | .object object =>
      let class_ := objects.class_ object
      if index < class_.instanceFields ∨ class_.size ≤ index ∨ ¬class_.holds index key then
        let i := class_.index key
        if i < class_.instanceFields ∨ class_.size ≤ i then
          ⟨.error (objects.undefinedField key), objects, index⟩
        else ⟨.ok (.value (class_.value i)), objects, i⟩
      else ⟨.ok (.value (class_.value index)), objects, index⟩
  | _ => ⟨.error (objects.undefinedField key), objects, index⟩

/-- `f_do_get` of `t_builder`. -/
def builderGet : Reply F ι κ :=
  match objects.openBuilder this key with
  | .error refusal => ⟨.error refusal, objects, index⟩
  | .ok (object, fields) =>
      ⟨.ok (.value .null),
        objects.setBuilder object { fields with instance_ := fields.instance_ ++ [key] }, index⟩

/-- `f_do_put` of `t_builder`. -/
def builderPut (value : Value F ι) : Reply F ι κ :=
  match objects.openBuilder this key with
  | .error refusal => ⟨.error refusal, objects, index⟩
  | .ok (object, fields) =>
      ⟨.ok .done,
        objects.setBuilder object { fields with class_ := fields.class_ ++ [(key, some value)] },
        index⟩

/-- `v_get` -/
def hookGet : Reply F ι κ :=
  match type.hooks with
  | .plain => ⟨.error (objects.undefinedField key), objects, index⟩
  | .class_ => classGet objects this key index
  | .builder => builderGet objects this key index

/-- `v_put` -/
def hookPut (value : Value F ι) : Reply F ι κ :=
  match type.hooks with
  | .builder => builderPut objects this key index value
  | _ => ⟨.error (objects.undefinedField key), objects, index⟩

/-- The end of `f_get` and `f__get` for a class field. -/
def readClass (i : Nat) : Answer F ι :=
  if objects.bindable (type.value i) then .method (type.value i) this else .value (type.value i)

def bindClass (i : Nat) : Answer F ι :=
  if objects.bindable (type.value i) then .bound (type.value i) this
  else .bound (type.value i) .null

def invokeClass (i : Nat) : Except Refusal (Answer F ι) :=
  if (type.value i).isObject then
    .ok (.call (type.value i) (if (objects.type (type.value i)).bindable then some this else none))
  else .error (.message "not supported.")

/-- `f_call` of a value. -/
def callValue (function : Value F ι) : Except Refusal (Answer F ι) :=
  if function.isObject then .ok (.call function none) else .error (.message "not supported.")

/-- `f__get` -/
def getSlow : Reply F ι κ :=
  let i := type.index key
  if i < type.instanceFields then ⟨.ok (.value (objects.fields this i)), objects, i⟩
  else if i < type.size then
    ⟨.ok (readClass objects type this i), objects, i - type.instanceFields⟩
  else hookGet objects type this key index

def get : Reply F ι κ :=
  if index < type.instanceFields ∧ type.holds index key then
    ⟨.ok (.value (objects.fields this index)), objects, index⟩
  else
    let i := type.shift index
    if i < type.size ∧ type.holds i key then ⟨.ok (readClass objects type this i), objects, index⟩
    else getSlow objects type this key index

/-- Both results of `v_get` in `f__bind` and in `f__invoke`. -/
def Reply.map (reply : Reply F ι κ) (f : Value F ι → Except Refusal (Answer F ι)) : Reply F ι κ :=
  match reply.result with
  | .ok (.value value) => { reply with result := f value }
  | _ => reply

/-- `f__bind` -/
def bindSlow : Reply F ι κ :=
  let i := type.index key
  if i < type.instanceFields then ⟨.ok (.bound (objects.fields this i) .null), objects, i⟩
  else if i < type.size then
    ⟨.ok (bindClass objects type this i), objects, i - type.instanceFields⟩
  else (hookGet objects type this key index).map fun value => .ok (.bound value .null)

def bind : Reply F ι κ :=
  let i := type.shift index
  if i < type.size ∧ type.holds i key then ⟨.ok (bindClass objects type this i), objects, index⟩
  else if index < type.instanceFields ∧ type.holds index key then
    ⟨.ok (.bound (objects.fields this index) .null), objects, index⟩
  else bindSlow objects type this key index

/-- `f__put` -/
def putSlow (value : Value F ι) : Reply F ι κ :=
  let i := type.index key
  if i < type.instanceFields then ⟨.ok .done, objects.setField this i value, i⟩
  else hookPut objects type this key index value

/-- `f_put` of a value and of its type. -/
def put (value : Value F ι) : Reply F ι κ :=
  if ¬this.isObject then ⟨.error (.message "not supported."), objects, index⟩
  else if index < type.instanceFields ∧ type.holds index key then
    ⟨.ok .done, objects.setField this index value, index⟩
  else putSlow objects type this key index value

/-- `f_has` of a value and of its type; `v_has` is the same for all types. -/
def has : Reply F ι κ :=
  if ¬this.isObject then ⟨.ok (.boolean false), objects, index⟩
  else if index < type.size ∧ type.holds index key then ⟨.ok (.boolean true), objects, index⟩
  else
    let i := type.index key
    if type.size ≤ i then ⟨.ok (.boolean false), objects, index⟩
    else ⟨.ok (.boolean true), objects, i⟩

/-- `f__invoke` -/
def invokeSlow : Reply F ι κ :=
  let i := type.index key
  if i < type.instanceFields then ⟨callValue (objects.fields this i), objects, i⟩
  else if i < type.size then
    ⟨invokeClass objects type this i, objects, i - type.instanceFields⟩
  else (hookGet objects type this key index).map callValue

def invoke : Reply F ι κ :=
  let i := type.shift index
  if i < type.size ∧ type.holds i key then ⟨invokeClass objects type this i, objects, index⟩
  else if index < type.instanceFields ∧ type.holds index key then
    ⟨callValue (objects.fields this index), objects, index⟩
  else invokeSlow objects type this key index

/-- The access of an instruction to a value, with the index in the instruction. -/
def access (objects : Objects F ι κ) (this : Value F ι) (key : κ) (index : Nat) :
    Request F ι → Reply F ι κ
  | .get => get objects (objects.type this) this key index
  | .bind => bind objects (objects.type this) this key index
  | .put value => put objects (objects.type this) this key index value
  | .has => has objects (objects.type this) this key index
  | .invoke => invoke objects (objects.type this) this key index

end

/-! ### Without the index -/

section Lookup

variable [DecidableEq F] [DecidableEq ι] (objects : Objects F ι κ) (type : Typed κ (Value F ι))
  (this : Value F ι) (key : κ)

/-- What an access yields, and the objects after it. -/
abbrev Outcome (F ι κ : Type) [LinearOrder κ] :=
  Except Refusal (Answer F ι) × Objects F ι κ

def Reply.outcome (reply : Reply F ι κ) : Outcome F ι κ := (reply.result, reply.objects)

/-- The value of a class field, for `class_.key`. -/
def lookupClass : Outcome F ι κ :=
  match this with
  | .object object =>
      match (objects.class_ object).place key with
      | none => (.error (objects.undefinedField key), objects)
      | some i =>
          if i < (objects.class_ object).instanceFields then
            (.error (objects.undefinedField key), objects)
          else (.ok (.value ((objects.class_ object).value i)), objects)
  | _ => (.error (objects.undefinedField key), objects)

def lookupHook : Outcome F ι κ :=
  match type.hooks with
  | .plain => (.error (objects.undefinedField key), objects)
  | .class_ => lookupClass objects this key
  | .builder => (builderGet objects this key 0).outcome

def Outcome.map (outcome : Outcome F ι κ) (f : Value F ι → Except Refusal (Answer F ι)) :
    Outcome F ι κ :=
  match outcome.1 with
  | .ok (.value value) => (f value, outcome.2)
  | _ => outcome

/-- What there is for the place of a field among those of the instance and of the class, or
for a key that is none of a field. -/
def Typed.locate (instance_ class_ : Nat → Except Refusal (Answer F ι)) (other : Outcome F ι κ) :
    Outcome F ι κ :=
  match type.place key with
  | none => other
  | some i => (if i < type.instanceFields then instance_ i else class_ i, objects)

/-- Each access where a field is looked up by its key alone. -/
def lookup : Request F ι → Outcome F ι κ
  | .get =>
      type.locate objects key (fun i => .ok (.value (objects.fields this i)))
        (fun i => .ok (readClass objects type this i)) (lookupHook objects type this key)
  | .bind =>
      type.locate objects key (fun i => .ok (.bound (objects.fields this i) .null))
        (fun i => .ok (bindClass objects type this i))
        ((lookupHook objects type this key).map fun value => .ok (.bound value .null))
  | .put value =>
      if ¬this.isObject then (.error (.message "not supported."), objects)
      else
        match type.place key with
        | none => (hookPut objects type this key 0 value).outcome
        | some i =>
            if i < type.instanceFields then (.ok .done, objects.setField this i value)
            else (hookPut objects type this key 0 value).outcome
  | .has => (.ok (.boolean (this.isObject && (type.place key).isSome)), objects)
  | .invoke =>
      type.locate objects key (fun i => callValue (objects.fields this i))
        (fun i => invokeClass objects type this i)
        ((lookupHook objects type this key).map callValue)

end Lookup

/-- An index that an access can have left in an instruction: less than the fields that are
in memory. -/
def Left (index : Nat) : Prop := 16 * index < 2 ^ 64

/-- The reply is that of the lookup, and leaves an index. -/
structure Agrees (reply : Reply F ι κ) (outcome : Outcome F ι κ) : Prop where
  same : reply.outcome = outcome
  left : Left reply.index

section Transparency

variable [DecidableEq F] [DecidableEq ι] {objects : Objects F ι κ} {type : Typed κ (Value F ι)}
  {this : Value F ι} {key : κ} {index i : Nat}

omit [DecidableEq F] [DecidableEq ι] in
theorem left_of_lt (type : Typed κ (Value F ι)) (short : i < type.size) : Left i := by
  have fits := type.fits
  unfold Left
  omega

omit [DecidableEq F] [DecidableEq ι] in
theorem shift_eq (type : Typed κ (Value F ι)) (left : Left index) :
    type.shift index = index + type.instanceFields := by
  have bound := type.laid.instances
  have fits := type.fits
  unfold TType.shift
  unfold Left at left
  omega

omit [DecidableEq F] [DecidableEq ι] in
theorem classGet_agrees (left : Left index) :
    Agrees (classGet objects this key index) (lookupClass objects this key) := by
  unfold classGet lookupClass
  cases this with
  | object object =>
      simp only
      have laid := (objects.class_ object).laid
      split
      · rcases laid.index_of_place key with ⟨i, short, place, found, _⟩ | ⟨place, found⟩
        · rw [found, place]
          by_cases early : i < (objects.class_ object).instanceFields
          · rw [if_pos (.inl early)]
            simp only [if_pos early]
            exact ⟨rfl, left⟩
          · rw [if_neg (by omega)]
            simp only [if_neg early]
            exact ⟨rfl, left_of_lt _ short⟩
        · rw [found, place, if_pos (.inr (Nat.le_refl _))]
          exact ⟨rfl, left⟩
      · rename_i known
        simp only [not_or, Nat.not_lt, Nat.not_le, Decidable.not_not] at known
        obtain ⟨late, short, holds⟩ := known
        rw [laid.place_of_holds holds]
        simp only [if_neg (Nat.not_lt.mpr late)]
        exact ⟨rfl, left⟩
  | _ => exact ⟨rfl, left⟩

omit [DecidableEq F] in
theorem builderGet_agrees (left : Left index) :
    Agrees (builderGet objects this key index) (builderGet objects this key 0).outcome := by
  unfold builderGet
  cases objects.openBuilder this key with
  | error refusal => exact ⟨rfl, left⟩
  | ok opened => exact ⟨rfl, left⟩

omit [DecidableEq F] in
theorem hookGet_agrees (left : Left index) :
    Agrees (hookGet objects type this key index) (lookupHook objects type this key) := by
  unfold hookGet lookupHook
  cases type.hooks with
  | plain => exact ⟨rfl, left⟩
  | class_ => exact classGet_agrees left
  | builder => exact builderGet_agrees left

omit [DecidableEq F] in
theorem hookPut_agrees (left : Left index) (value : Value F ι) :
    Agrees (hookPut objects type this key index value)
      (hookPut objects type this key 0 value).outcome := by
  unfold hookPut builderPut
  cases type.hooks with
  | plain => exact ⟨rfl, left⟩
  | class_ => exact ⟨rfl, left⟩
  | builder =>
      cases objects.openBuilder this key with
      | error refusal => exact ⟨rfl, left⟩
      | ok opened => exact ⟨rfl, left⟩

omit [DecidableEq F] [DecidableEq ι] in
theorem Agrees.map {reply : Reply F ι κ} {outcome : Outcome F ι κ} (agrees : Agrees reply outcome)
    (f : Value F ι → Except Refusal (Answer F ι)) : Agrees (reply.map f) (outcome.map f) := by
  obtain ⟨rfl, left⟩ := agrees
  unfold Reply.map Outcome.map Reply.outcome
  simp only
  split <;> exact ⟨rfl, left⟩

section Locate

variable {instance_ class_ : Nat → Except Refusal (Answer F ι)} {reply : Reply F ι κ}
  {other : Outcome F ι κ}

omit [DecidableEq F] [DecidableEq ι] in
theorem instance_agrees (known : index < type.instanceFields ∧ type.holds index key)
    (left : Left index) (same : reply = ⟨instance_ index, objects, index⟩) :
    Agrees reply (type.locate objects key instance_ class_ other) := by
  subst same
  unfold Typed.locate
  simp only [type.laid.place_of_holds known.2, if_pos known.1]
  exact ⟨rfl, left⟩

omit [DecidableEq F] [DecidableEq ι] in
theorem class_agrees (known : type.shift index < type.size ∧ type.holds (type.shift index) key)
    (left : Left index) (same : reply = ⟨class_ (type.shift index), objects, index⟩) :
    Agrees reply (type.locate objects key instance_ class_ other) := by
  subst same
  have late : ¬type.shift index < type.instanceFields := by
    rw [shift_eq type left]
    omega
  unfold Typed.locate
  simp only [type.laid.place_of_holds known.2, if_neg late]
  exact ⟨rfl, left⟩

omit [DecidableEq F] [DecidableEq ι] in
theorem slow_agrees {hook : Reply F ι κ} (agrees : Agrees hook other)
    (same : reply =
      if type.index key < type.instanceFields then
        ⟨instance_ (type.index key), objects, type.index key⟩
      else if type.index key < type.size then
        ⟨class_ (type.index key), objects, type.index key - type.instanceFields⟩
      else hook) :
    Agrees reply (type.locate objects key instance_ class_ other) := by
  subst same
  unfold Typed.locate
  rcases type.laid.index_of_place key with ⟨i, short, place, found, _⟩ | ⟨place, found⟩
  · rw [found, place]
    by_cases early : i < type.instanceFields
    · simp only [if_pos early]
      exact ⟨rfl, left_of_lt type short⟩
    · simp only [if_neg early, if_pos short]
      exact ⟨rfl, left_of_lt type (Nat.lt_of_le_of_lt (Nat.sub_le _ _) short)⟩
  · have bound := type.laid.instances
    rw [found, place, if_neg (by omega), if_neg (Nat.lt_irrefl _)]
    exact agrees

end Locate

theorem get_agrees (left : Left index) :
    Agrees (get objects type this key index) (lookup objects type this key .get) := by
  unfold get lookup
  simp only
  split
  · rename_i known
    exact instance_agrees known left rfl
  · split
    · rename_i known
      exact class_agrees known left rfl
    · exact slow_agrees (hookGet_agrees left) rfl

theorem bind_agrees (left : Left index) :
    Agrees (bind objects type this key index) (lookup objects type this key .bind) := by
  unfold bind lookup
  simp only
  split
  · rename_i known
    exact class_agrees known left rfl
  · split
    · rename_i known
      exact instance_agrees known left rfl
    · exact slow_agrees ((hookGet_agrees left).map _) rfl

theorem invoke_agrees (left : Left index) :
    Agrees (invoke objects type this key index) (lookup objects type this key .invoke) := by
  unfold invoke lookup
  simp only
  split
  · rename_i known
    exact class_agrees known left rfl
  · split
    · rename_i known
      exact instance_agrees known left rfl
    · exact slow_agrees ((hookGet_agrees left).map _) rfl

theorem put_agrees (left : Left index) (value : Value F ι) :
    Agrees (put objects type this key index value) (lookup objects type this key (.put value)) := by
  unfold put lookup
  simp only
  split
  · exact ⟨rfl, left⟩
  · split
    · rename_i known
      simp only [type.laid.place_of_holds known.2, if_pos known.1]
      exact ⟨rfl, left⟩
    · unfold putSlow
      rcases type.laid.index_of_place key with ⟨i, short, place, found, _⟩ | ⟨place, found⟩
      · simp only [found, place]
        by_cases early : i < type.instanceFields
        · simp only [if_pos early]
          exact ⟨rfl, left_of_lt type short⟩
        · simp only [if_neg early]
          exact hookPut_agrees left value
      · have bound := type.laid.instances
        simp only [found, place, if_neg (Nat.not_lt.mpr bound)]
        exact hookPut_agrees left value

theorem has_agrees (left : Left index) :
    Agrees (has objects type this key index) (lookup objects type this key .has) := by
  unfold has lookup
  by_cases object : this.isObject
  · rw [if_neg (not_not.mpr object), object, Bool.true_and]
    split
    · rename_i known
      rw [type.laid.place_of_holds known.2]
      exact ⟨rfl, left⟩
    · rcases type.laid.index_of_place key with ⟨i, short, place, found, _⟩ | ⟨place, found⟩
      · simp only [found, place, if_neg (Nat.not_le.mpr short)]
        exact ⟨rfl, left_of_lt type short⟩
      · simp only [found, place, if_pos (Nat.le_refl _)]
        exact ⟨rfl, left⟩
  · rw [if_pos object, Bool.eq_false_iff.mpr object, Bool.false_and]
    exact ⟨rfl, left⟩

theorem access_agrees (objects : Objects F ι κ) (this : Value F ι) (key : κ)
    (request : Request F ι) (left : Left index) :
    Agrees (access objects this key index request)
      (lookup objects (objects.type this) this key request) := by
  cases request with
  | get => exact get_agrees left
  | bind => exact bind_agrees left
  | put value => exact put_agrees left value
  | has => exact has_agrees left
  | invoke => exact invoke_agrees left

end Transparency

/-! ### Runs -/

/-- What threads do in some order: accesses at sites, and anything else, to which an index
in an instruction is nothing. -/
inductive Program (F ι κ α : Type) [LinearOrder κ]
  | finish (result : α)
  | other (change : Objects F ι κ → Objects F ι κ) (next : Objects F ι κ → Program F ι κ α)
  | access (site : Nat) (this : Value F ι) (key : κ) (request : Request F ι)
      (next : Except Refusal (Answer F ι) → Program F ι κ α)

/-- The end of a run, with the indices in the instructions. -/
structure Ended (F ι κ α : Type) [LinearOrder κ] where
  result : α
  objects : Objects F ι κ
  indices : Nat → Nat

section Runs

variable [DecidableEq F] [DecidableEq ι] {α : Type}

def Program.run : Program F ι κ α → Objects F ι κ → (Nat → Nat) → Ended F ι κ α
  | finish result, objects, indices => ⟨result, objects, indices⟩
  | other change next, objects, indices => (next objects).run (change objects) indices
  | access site this key request next, objects, indices =>
      let reply := Access.access objects this key (indices site) request
      (next reply.result).run reply.objects (Function.update indices site reply.index)

def Program.plain : Program F ι κ α → Objects F ι κ → α × Objects F ι κ
  | finish result, objects => (result, objects)
  | other change next, objects => (next objects).plain (change objects)
  | access _ this key request next, objects =>
      let outcome := lookup objects (objects.type this) this key request
      (next outcome.1).plain outcome.2

theorem run_agrees (program : Program F ι κ α) (objects : Objects F ι κ) {indices : Nat → Nat}
    (left : ∀ site, Left (indices site)) :
    ((program.run objects indices).result, (program.run objects indices).objects) =
        program.plain objects ∧
      ∀ site, Left ((program.run objects indices).indices site) := by
  induction program generalizing objects indices with
  | finish result => exact ⟨rfl, left⟩
  | other change next induction => exact induction objects (change objects) left
  | access site this key request next induction =>
      obtain ⟨same, left'⟩ := access_agrees objects this key request (left site)
      have after : ∀ other, Left (Function.update indices site
          (access objects this key (indices site) request).index other) := by
        intro other
        by_cases here : other = site
        · rw [here, Function.update_self]
          exact left'
        · rw [Function.update_of_ne here]
          exact left other
      have rest := induction (access objects this key (indices site) request).result
        (access objects this key (indices site) request).objects after
      unfold Program.run Program.plain
      rw [← same]
      exact rest

/-- Whatever the instructions have been executed on before, with 0 for the index of each at
first: the run is that without the indices, and so is the next access at each site. -/
theorem cache_transparent (earlier : Program F ι κ α) (objects : Objects F ι κ) :
    ((earlier.run objects fun _ => 0).result, (earlier.run objects fun _ => 0).objects) =
        earlier.plain objects ∧
      ∀ site this key request,
        (access (earlier.run objects fun _ => 0).objects this key
          ((earlier.run objects fun _ => 0).indices site) request).outcome =
        lookup (earlier.run objects fun _ => 0).objects
          ((earlier.run objects fun _ => 0).objects.type this) this key request := by
  have first : ∀ site : Nat, Left ((fun _ => 0) site) := by
    intro site
    change 16 * 0 < 2 ^ 64
    decide
  obtain ⟨same, left⟩ := run_agrees earlier objects first
  refine ⟨same, ?_⟩
  intro site this key request
  exact (access_agrees _ this key request (left site)).same

end Runs

theorem exists_typed {ν : Type} [DecidableEq ν] {global : Global κ ν} {type : TType κ ν}
    (built : TType.Built global type) (fits : 16 * type.size < 2 ^ 64) (hooks : Hooks)
    (bindable : Bool) :
    ∃ typed : Typed κ ν, typed.toTType = type ∧ typed.hooks = hooks ∧ typed.bindable = bindable :=
  ⟨⟨type, (TType.laid_of_built built).1, fits, hooks, bindable⟩, rfl, rfl, rfl⟩

end Access

end Xemmai
