import Mathlib.Data.List.Induction
import Xemmai.Tables

/-!
# Types

`t_type` as far as its fields go: `f_merge` lays the fields of a derived type out,
`f_derive` builds the type, `f_index` finds a field. A key is the address of a symbol.
The special methods are the first class fields of the type `Object`, where the operators
look for them by number.
-/

namespace Xemmai

set_option autoImplicit false

/-- `v_instance_fields`, `f_fields()` and `f_key2index()`; a field has no value if it is
null. -/
structure TType (κ ν : Type) where
  instanceFields : Nat
  fields : List (κ × Option ν)
  keyIndex : List (κ × Nat)

/-- `t_fields` -/
structure Fields (κ ν : Type) where
  instance_ : List κ
  class_ : List (κ × Option ν)

/-- The methods that `t_type::f_define` gives `Object`. -/
inductive Special
  | initialize_
  | call
  | string
  | hash
  | getAt
  | setAt
  | plus
  | minus
  | complement
  | multiply
  | divide
  | modulus
  | add
  | subtract
  | leftShift
  | rightShift
  | less
  | lessEqual
  | greater
  | greaterEqual
  | equals
  | notEquals
  | and
  | xor
  | or
  deriving DecidableEq, Repr

namespace Special

/-- In the order of `f_define` -/
def all : List Special :=
  [initialize_, call, string, hash, getAt, setAt, plus, minus, complement, multiply, divide,
    modulus, add, subtract, leftShift, rightShift, less, lessEqual, greater, greaterEqual,
    equals, notEquals, and, xor, or]

/-- The numbers of `f_do_instantiate`, of `f_do_call`, `f_do_string` and `f_do_hash`, and
of `XEMMAI__TYPE__METHOD`. -/
def number : Special → Nat
  | initialize_ => 0
  | call => 1
  | string => 2
  | hash => 3
  | getAt => 4
  | setAt => 5
  | plus => 6
  | minus => 7
  | complement => 8
  | multiply => 9
  | divide => 10
  | modulus => 11
  | add => 12
  | subtract => 13
  | leftShift => 14
  | rightShift => 15
  | less => 16
  | lessEqual => 17
  | greater => 18
  | greaterEqual => 19
  | equals => 20
  | notEquals => 21
  | and => 22
  | xor => 23
  | or => 24

theorem all_nodup : all.Nodup := by decide

theorem number_eq (special : Special) : all[special.number]? = some special := by
  cases special <;> rfl

end Special

/-- The symbols of the special methods with what `Object` has for them, and the two
methods that `f_derive` exchanges. -/
structure Global (κ ν : Type) where
  symbol : Special → κ
  distinct : Function.Injective symbol
  method : Special → Option ν
  validate : ν
  ignore_ : ν

namespace TType

variable {κ ν : Type}

/-- `v_fields` -/
def size (type : TType κ ν) : Nat := type.fields.length

def keys (type : TType κ ν) : List κ := type.fields.map Prod.fst

def instances (type : TType κ ν) : List (κ × Option ν) := type.fields.take type.instanceFields

def classes (type : TType κ ν) : List (κ × Option ν) := type.fields.drop type.instanceFields

def blank : TType κ ν where
  instanceFields := 0
  fields := []
  keyIndex := []

/-- How `f_merge` ends without a result: with the text of a symbol, or with the exception
of `at`. -/
inductive Thrown (κ : Type)
  | named (key : κ)
  | outOfRange
  deriving DecidableEq, Repr

/-- `fields` and `key2index` of `f_merge` -/
structure Merged (κ ν : Type) where
  fields : List (κ × Option ν)
  table : List (κ × Nat)

variable [LinearOrder κ]

def index (type : TType κ ν) (key : κ) : Nat :=
  (Keyed.search type.keyIndex key 0 type.size).getD type.size

namespace Merged

def addInstance (merged : Merged κ ν) (key : κ) : Except (Thrown κ) (Merged κ ν) :=
  match Keyed.find key merged.table with
  | some _ => .error (.named key)
  | none => .ok ⟨merged.fields ++ [(key, none)],
      Keyed.emplace key merged.fields.length merged.table⟩

def inherit (merged : Merged κ ν) (field : κ × Option ν) : Except (Thrown κ) (Merged κ ν) :=
  match Keyed.find field.1 merged.table with
  | none => .error .outOfRange
  | some _ => .ok ⟨merged.fields ++ [field],
      Keyed.assign field.1 merged.fields.length merged.table⟩

/-- A turn of the loop over the class fields of the definition. -/
def addClass (instanceFields : Nat) (merged : Merged κ ν) (field : κ × Option ν) :
    Except (Thrown κ) (Merged κ ν) :=
  match Keyed.find field.1 merged.table with
  | none => .ok ⟨merged.fields ++ [field],
      Keyed.emplace field.1 merged.fields.length merged.table⟩
  | some i =>
      if i < instanceFields then .error (.named field.1)
      else .ok { merged with fields := merged.fields.modify i fun x => (x.1, field.2) }

end Merged

def merge (type : TType κ ν) (definition : Fields κ ν) : Except (Thrown κ) (Merged κ ν) := do
  let table := type.keyIndex.foldl (fun table entry => Keyed.emplace entry.1 entry.2 table) []
  let merged ← definition.instance_.foldlM Merged.addInstance ⟨type.instances, table⟩
  let instanceFields := merged.fields.length
  let merged ← type.classes.foldlM Merged.inherit merged
  definition.class_.foldlM (Merged.addClass instanceFields) merged

/-- `f_derive`; `overridden` tells whether the type has its own `f_do_construct`. -/
def derive_ [DecidableEq ν] (global : Global κ ν) (type : TType κ ν) (definition : Fields κ ν)
    (overridden : Bool) : Except (Thrown κ) (TType κ ν) := do
  let merged ← type.merge definition
  let instanceFields := type.instanceFields + definition.instance_.length
  let fields :=
    if overridden then
      merged.fields.modify instanceFields fun field =>
        if field.2 = some global.validate then (field.1, some global.ignore_) else field
    else merged.fields
  .ok ⟨instanceFields, fields, merged.table⟩

/-- `t_define::f_derive` of a type that has been allocated before. -/
def define_ (type : TType κ ν) (definition : Fields κ ν) : Except (Thrown κ) (TType κ ν) := do
  let merged ← type.merge definition
  .ok ⟨definition.instance_.length, merged.fields, merged.table⟩

/-- What `t_type::f_define` defines. -/
def specials (global : Global κ ν) : Fields κ ν where
  instance_ := []
  class_ := Special.all.map fun special => (global.symbol special, global.method special)

/-- `Object` and the types derived from it. -/
inductive Built [DecidableEq ν] (global : Global κ ν) : TType κ ν → Prop
  | object {type : TType κ ν} (defined : blank.define_ (specials global) = .ok type) :
      Built global type
  | derive {base type : TType κ ν} {definition : Fields κ ν} {overridden : Bool}
      (built : Built global base)
      (derived : derive_ global base definition overridden = .ok type) : Built global type

/-- The keys differ, and the table has each with its place. -/
structure Laid (type : TType κ ν) : Prop where
  instances : type.instanceFields ≤ type.size
  distinct : type.keys.Nodup
  ordered : Keyed.Ordered type.keyIndex
  placed : ∀ key i, (key, i) ∈ type.keyIndex ↔ type.keys[i]? = some key
  complete : type.keyIndex.length = type.size

/-- A key that makes `f_merge` throw: a new instance field that repeats a field, or a class
field that names one of an instance. -/
inductive Clash (type : TType κ ν) (definition : Fields κ ν) (key : κ) : Prop
  | instance_ (before after : List κ) (place : definition.instance_ = before ++ key :: after)
      (repeats : key ∈ type.keys ∨ key ∈ before)
  | class_ (named : key ∈ definition.class_.map Prod.fst)
      (taken : key ∈ type.instances.map Prod.fst ∨ key ∈ definition.instance_)

omit [LinearOrder κ] in
/-- A field among the class fields: the value of the one with its key is replaced, or it
comes last. -/
def override [DecidableEq κ] (fields : List (κ × Option ν)) (field : κ × Option ν) :
    List (κ × Option ν) :=
  if field.1 ∈ fields.map Prod.fst then
    fields.map fun x => if x.1 = field.1 then (x.1, field.2) else x
  else fields ++ [field]

def latest (definition : List (κ × Option ν)) (field : κ × Option ν) : κ × Option ν :=
  (field.1, definition.foldl (fun value x => if x.1 = field.1 then x.2 else value) field.2)

section Override

variable {fields definition : List (κ × Option ν)} {field : κ × Option ν}

theorem keys_override (fields : List (κ × Option ν)) (field : κ × Option ν) :
    (override fields field).map Prod.fst =
      fields.map Prod.fst ++ if field.1 ∈ fields.map Prod.fst then [] else [field.1] := by
  unfold override
  split
  · rw [List.append_nil, List.map_map]
    apply List.map_congr_left
    intro x _
    simp only [Function.comp_apply]
    split <;> rfl
  · rw [List.map_append]
    rfl

theorem nodup_override (distinct : (fields.map Prod.fst).Nodup) :
    ((override fields field).map Prod.fst).Nodup := by
  rw [keys_override]
  split
  · rw [List.append_nil]
    exact distinct
  · rename_i absent
    rw [List.nodup_append]
    refine ⟨distinct, List.nodup_singleton _, fun key member other last => ?_⟩
    rw [List.mem_singleton.mp last]
    rintro rfl
    exact absent member

/-- The fields that there are stay where they are, with the latest values. -/
theorem fold_override (distinct : (fields.map Prod.fst).Nodup) {j : Nat}
    (place : fields[j]? = some field) :
    (definition.foldl override fields)[j]? = some (latest definition field) := by
  induction definition generalizing fields field with
  | nil => exact place
  | cons x definition induction =>
      have inside : (override fields x)[j]? =
          some (field.1, if x.1 = field.1 then x.2 else field.2) := by
        obtain ⟨short, here⟩ := List.getElem?_eq_some_iff.mp place
        unfold override
        split
        · rw [List.getElem?_map, place, Option.map_some]
          by_cases same : field.1 = x.1
          · rw [if_pos same, if_pos same.symm]
          · rw [if_neg same, if_neg (Ne.symm same)]
        · rename_i absent
          rw [List.getElem?_append_left short, place]
          have apart : x.1 ≠ field.1 := by
            intro same
            apply absent
            rw [same, ← here]
            exact List.mem_map_of_mem (List.getElem_mem short)
          rw [if_neg apart]
      rw [List.foldl_cons, induction (nodup_override distinct) inside]
      rfl

theorem keys_fold_override (fields definition : List (κ × Option ν)) :
    fields.map Prod.fst <+: (definition.foldl override fields).map Prod.fst := by
  induction definition generalizing fields with
  | nil => exact List.prefix_refl _
  | cons x definition induction =>
      refine List.IsPrefix.trans ?_ (induction (override fields x))
      rw [keys_override]
      exact List.prefix_append _ _

theorem fold_override_fresh (distinct : ((fields ++ definition).map Prod.fst).Nodup) :
    definition.foldl override fields = fields ++ definition := by
  induction definition generalizing fields with
  | nil => exact (List.append_nil fields).symm
  | cons x definition induction =>
      have absent : x.1 ∉ fields.map Prod.fst := by
        rw [List.map_append, List.nodup_append] at distinct
        intro member
        exact distinct.2.2 _ member x.1 List.mem_cons_self rfl
      have step : override fields x = fields ++ [x] := if_neg absent
      have later : ((fields ++ [x] ++ definition).map Prod.fst).Nodup := by
        rw [List.append_assoc]
        exact distinct
      rw [List.foldl_cons, step, induction later, List.append_assoc, List.singleton_append]

end Override

/-- The fields of a derived type, when they have been copied from the base and from the
definition, and what is left to be copied. -/
structure Covers (merged : Merged κ ν) (rest : List (κ × Option ν)) : Prop where
  ordered : Keyed.Ordered merged.table
  distinct : ((merged.fields ++ rest).map Prod.fst).Nodup
  placed : ∀ key i, key ∉ rest.map Prod.fst →
    (Keyed.find key merged.table = some i ↔ (merged.fields.map Prod.fst)[i]? = some key)
  waiting : ∀ key ∈ rest.map Prod.fst, Keyed.find key merged.table ≠ none
  complete : merged.table.length = merged.fields.length + rest.length

section Covers

variable {merged : Merged κ ν} {rest : List (κ × Option ν)} {key : κ} {field : κ × Option ν}

theorem Covers.absent_iff (covers : Covers merged rest) :
    Keyed.find key merged.table = none ↔ key ∉ (merged.fields ++ rest).map Prod.fst := by
  rw [List.map_append, List.mem_append, not_or]
  constructor
  · intro none
    have apart : key ∉ rest.map Prod.fst := fun inside => covers.waiting key inside none
    refine ⟨fun member => ?_, apart⟩
    obtain ⟨i, short, here⟩ := List.mem_iff_getElem.mp member
    have found := (covers.placed key i apart).mpr (List.getElem?_eq_some_iff.mpr ⟨short, here⟩)
    rw [none] at found
    cases found
  · rintro ⟨outside, apart⟩
    cases found : Keyed.find key merged.table with
    | none => rfl
    | some i => exact absurd (List.mem_of_getElem? ((covers.placed key i apart).mp found)) outside

theorem Covers.append (covers : Covers merged rest)
    (absent : Keyed.find field.1 merged.table = none) :
    Covers ⟨merged.fields ++ [field],
      Keyed.emplace field.1 merged.fields.length merged.table⟩ rest := by
  have outside := covers.absent_iff.mp absent
  have apart : field.1 ∉ rest.map Prod.fst := fun member =>
    outside (by rw [List.map_append]; exact List.mem_append_right _ member)
  have before : field.1 ∉ merged.fields.map Prod.fst := fun member =>
    outside (by rw [List.map_append]; exact List.mem_append_left _ member)
  refine ⟨Keyed.ordered_emplace covers.ordered, ?_, ?_, ?_, ?_⟩
  · have order : (merged.fields ++ [field] ++ rest).Perm (field :: (merged.fields ++ rest)) := by
      rw [List.append_assoc]
      exact List.perm_middle
    rw [(order.map Prod.fst).nodup_iff, List.map_cons, List.nodup_cons]
    exact ⟨outside, covers.distinct⟩
  · intro key i away
    rw [Keyed.find_emplace covers.ordered absent]
    simp only [List.map_append, List.map_cons, List.map_nil]
    by_cases same : key = field.1
    · subst same
      rw [if_pos rfl, Option.some.injEq]
      constructor
      · rintro rfl
        rw [List.getElem?_append_right (by simp)]
        simp
      · intro place
        obtain ⟨short, here⟩ := List.getElem?_eq_some_iff.mp place
        rcases Nat.lt_or_ge i (merged.fields.map Prod.fst).length with early | late
        · rw [List.getElem_append_left early] at here
          exact absurd (here ▸ List.getElem_mem early) before
        · simp only [List.length_append, List.length_map, List.length_singleton] at short late
          omega
    · rw [if_neg same, covers.placed key i away]
      rcases Nat.lt_trichotomy i (merged.fields.map Prod.fst).length with early | here | late
      · rw [List.getElem?_append_left early]
      · subst here
        rw [List.getElem?_append_right (Nat.le_refl _), List.getElem?_eq_none (Nat.le_refl _)]
        simpa using Ne.symm same
      · rw [List.getElem?_eq_none (by omega), List.getElem?_eq_none (by simp at late ⊢; omega)]
  · intro key member none
    rw [Keyed.find_emplace covers.ordered absent] at none
    split at none
    · cases none
    · exact covers.waiting key member none
  · rw [Keyed.length_emplace absent, covers.complete, List.length_append, List.length_singleton]
    omega

theorem Covers.next (covers : Covers merged (field :: rest)) :
    Covers ⟨merged.fields ++ [field],
      Keyed.assign field.1 merged.fields.length merged.table⟩ rest := by
  have distinct : ((merged.fields ++ [field] ++ rest).map Prod.fst).Nodup := by
    rw [List.append_assoc]
    exact covers.distinct
  obtain ⟨i, found⟩ := Option.ne_none_iff_exists'.mp (covers.waiting field.1 (by simp))
  have split := covers.distinct
  rw [List.map_append, List.map_cons, List.nodup_append, List.nodup_cons] at split
  refine ⟨Keyed.ordered_assign covers.ordered, distinct, ?_, ?_, ?_⟩
  · intro key j away
    rw [Keyed.find_assign, found]
    simp only [List.map_append, List.map_cons, List.map_nil, Option.map_some]
    by_cases same : key = field.1
    · subst same
      have before : field.1 ∉ merged.fields.map Prod.fst := fun member =>
        split.2.2 _ member _ List.mem_cons_self rfl
      rw [if_pos rfl, Option.some.injEq]
      constructor
      · rintro rfl
        rw [List.getElem?_append_right (by simp)]
        simp
      · intro place
        obtain ⟨short, here⟩ := List.getElem?_eq_some_iff.mp place
        rcases Nat.lt_or_ge j (merged.fields.map Prod.fst).length with early | late
        · rw [List.getElem_append_left early] at here
          exact absurd (here ▸ List.getElem_mem early) before
        · simp only [List.length_append, List.length_map, List.length_singleton] at short late
          omega
    · have away' : key ∉ (field :: rest).map Prod.fst := by
        rw [List.map_cons, List.mem_cons, not_or]
        exact ⟨same, away⟩
      rw [if_neg same, covers.placed key j away']
      rcases Nat.lt_trichotomy j (merged.fields.map Prod.fst).length with early | here | late
      · rw [List.getElem?_append_left early]
      · subst here
        rw [List.getElem?_append_right (Nat.le_refl _), List.getElem?_eq_none (Nat.le_refl _)]
        simpa using Ne.symm same
      · rw [List.getElem?_eq_none (by omega), List.getElem?_eq_none (by simp at late ⊢; omega)]
  · intro key member none
    rw [Keyed.find_assign, found] at none
    split at none
    · cases none
    · exact covers.waiting key (List.mem_cons_of_mem _ member) none
  · rw [Keyed.length_assign, covers.complete, List.length_append, List.length_singleton,
      List.length_cons]
    omega

end Covers

end TType

end Xemmai
