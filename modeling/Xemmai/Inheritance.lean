import Mathlib.Data.Nat.Basic
import Xemmai.Types

/-!
# Derived types

What `f_merge` does to the types that are derived from `Object`, one after another.
-/

namespace Xemmai.TType

set_option autoImplicit false

variable {κ ν : Type} [LinearOrder κ]

section Stages

variable {merged : Merged κ ν} {rest : List (κ × Option ν)} {instanceFields : Nat}
  {field : κ × Option ν}

theorem addInstances (covers : Covers merged rest) (names : List κ) :
    (∃ after, names.foldlM Merged.addInstance merged = .ok after ∧ Covers after rest ∧
      after.fields = merged.fields ++ names.map fun key => (key, none)) ∨
    ∃ before key later, names = before ++ key :: later ∧
      names.foldlM Merged.addInstance merged = .error (.named key) ∧
      (key ∈ (merged.fields ++ rest).map Prod.fst ∨ key ∈ before) := by
  induction names generalizing merged with
  | nil =>
      left
      exact ⟨merged, rfl, covers, (List.append_nil _).symm⟩
  | cons name names induction =>
      rw [List.foldlM_cons]
      unfold Merged.addInstance
      cases found : Keyed.find name merged.table with
      | some i =>
          right
          refine ⟨[], name, names, rfl, rfl, .inl ?_⟩
          by_contra outside
          rw [covers.absent_iff.mpr outside] at found
          cases found
      | none =>
          have absent : Keyed.find ((name, none) : κ × Option ν).1 merged.table = none := found
          have step := covers.append absent
          rcases induction step with
            ⟨after, run, last, same⟩ | ⟨before, key, later, place, run, taken⟩
          · left
            refine ⟨after, run, last, ?_⟩
            rw [same, List.append_assoc, List.map_cons, List.singleton_append]
          · right
            refine ⟨name :: before, key, later, by rw [place]; rfl, run, ?_⟩
            simp only [List.map_append, List.map_cons, List.map_nil, List.mem_append,
              List.mem_cons] at taken ⊢
            tauto

theorem inherits (covers : Covers merged rest) :
    ∃ after, rest.foldlM Merged.inherit merged = .ok after ∧ Covers after [] ∧
      after.fields = merged.fields ++ rest := by
  induction rest generalizing merged with
  | nil => exact ⟨merged, rfl, covers, (List.append_nil _).symm⟩
  | cons field rest induction =>
      obtain ⟨i, found⟩ := Option.ne_none_iff_exists'.mp (covers.waiting field.1 (by simp))
      obtain ⟨after, run, last, same⟩ := induction covers.next
      refine ⟨after, ?_, last, ?_⟩
      · rw [List.foldlM_cons]
        unfold Merged.inherit
        rw [found]
        exact run
      · rw [same, List.append_assoc, List.singleton_append]

theorem Covers.found_iff (covers : Covers merged []) {key : κ} {i : Nat} :
    Keyed.find key merged.table = some i ↔ (merged.fields.map Prod.fst)[i]? = some key :=
  covers.placed key i List.not_mem_nil

theorem Covers.unique (covers : Covers merged []) : (merged.fields.map Prod.fst).Nodup := by
  have distinct := covers.distinct
  rwa [List.append_nil] at distinct

theorem Covers.revalue (covers : Covers merged []) {fields : List (κ × Option ν)}
    (same : fields.map Prod.fst = merged.fields.map Prod.fst) :
    Covers ⟨fields, merged.table⟩ [] := by
  refine ⟨covers.ordered, ?_, ?_, covers.waiting, ?_⟩
  · rw [List.append_nil, same]
    exact covers.unique
  · intro key i _
    rw [same]
    exact covers.found_iff
  · have length := congrArg List.length same
    rw [List.length_map, List.length_map] at length
    rw [length]
    exact covers.complete

omit [LinearOrder κ] in
theorem keys_modify (fields : List (κ × Option ν)) (i : Nat) (change : κ × Option ν → κ × Option ν)
    (keep : ∀ field, (change field).1 = field.1) :
    (fields.modify i change).map Prod.fst = fields.map Prod.fst := by
  apply List.ext_getElem?
  intro j
  rw [List.getElem?_map, List.getElem?_map, List.getElem?_modify]
  cases fields[j]? with
  | none => rfl
  | some field =>
      by_cases same : i = j
      · simp [same, keep]
      · simp [same]

omit [LinearOrder κ] in
theorem modify_eq_append {fields : List (κ × Option ν)} {n i : Nat} (from_ : n ≤ i)
    (change : κ × Option ν → κ × Option ν) :
    fields.modify i change = fields.take n ++ (fields.drop n).modify (i - n) change := by
  have front : (fields.take n).length ≤ i := by
    rw [List.length_take]
    omega
  rw [← List.drop_modify_of_ge _ _ _ _ from_]
  conv_lhs => rw [← List.take_append_drop n (fields.modify i change)]
  rw [List.take_modify, List.modify_eq_self front]

/-- Among fields with different keys the one with a key is the one at its place. -/
theorem override_eq_modify {fields : List (κ × Option ν)} (distinct : (fields.map Prod.fst).Nodup)
    {i : Nat} (place : (fields.map Prod.fst)[i]? = some field.1) :
    override fields field = fields.modify i fun x => (x.1, field.2) := by
  unfold override
  rw [if_pos (List.mem_of_getElem? place)]
  apply List.ext_getElem?
  intro j
  rw [List.getElem?_map, List.getElem?_modify]
  cases here : fields[j]? with
  | none => rfl
  | some x =>
      have there : (fields.map Prod.fst)[j]? = some x.1 := by rw [List.getElem?_map, here]; rfl
      by_cases same : x.1 = field.1
      · rw [same] at there
        have position : i = j := by
          obtain ⟨short, _⟩ := List.getElem?_eq_some_iff.mp place
          exact (List.getElem?_inj short distinct).mp (place.trans there.symm)
        simp [same, position]
      · have apart : i ≠ j := by
          rintro rfl
          rw [there] at place
          exact same (Option.some.inj place)
        simp [same, apart]

/-- A turn of the loop over the class fields of the definition. -/
theorem addClass_cases (covers : Covers merged []) (bound : instanceFields ≤ merged.fields.length)
    (field : κ × Option ν) :
    (field.1 ∈ (merged.fields.take instanceFields).map Prod.fst ∧
      merged.addClass instanceFields field = .error (.named field.1)) ∨
    (field.1 ∉ (merged.fields.take instanceFields).map Prod.fst ∧
      ∃ after, merged.addClass instanceFields field = .ok after ∧ Covers after [] ∧
        after.fields = merged.fields.take instanceFields ++
          override (merged.fields.drop instanceFields) field) := by
  have whole := List.take_append_drop instanceFields merged.fields
  have length : ((merged.fields.take instanceFields).map Prod.fst).length = instanceFields := by
    rw [List.length_map, List.length_take, Nat.min_eq_left bound]
  unfold Merged.addClass
  cases found : Keyed.find field.1 merged.table with
  | none =>
      right
      have outside := covers.absent_iff.mp found
      rw [List.append_nil, ← whole, List.map_append, List.mem_append, not_or] at outside
      refine ⟨outside.1, _, rfl, covers.append found, ?_⟩
      unfold override
      rw [if_neg outside.2, ← List.append_assoc, whole]
  | some i =>
      have place := covers.found_iff.mp found
      rw [← whole, List.map_append] at place
      simp only
      split
      · rename_i early
        left
        refine ⟨?_, rfl⟩
        rw [List.getElem?_append_left (by omega)] at place
        exact List.mem_of_getElem? place
      · rename_i late
        right
        have distinct := covers.unique
        rw [← whole, List.map_append, List.nodup_append] at distinct
        rw [List.getElem?_append_right (by omega), length] at place
        refine ⟨?_, _, rfl, covers.revalue (keys_modify _ _ _ fun _ => rfl), ?_⟩
        · intro front
          exact distinct.2.2 _ front _ (List.mem_of_getElem? place) rfl
        · rw [override_eq_modify distinct.2.1 place]
          exact modify_eq_append (Nat.not_lt.mp late) _

theorem addClasses (covers : Covers merged []) (bound : instanceFields ≤ merged.fields.length)
    (definition : List (κ × Option ν)) :
    (∃ after, definition.foldlM (Merged.addClass instanceFields) merged = .ok after ∧
      Covers after [] ∧
      after.fields = merged.fields.take instanceFields ++
        definition.foldl override (merged.fields.drop instanceFields) ∧
      ∀ key ∈ definition.map Prod.fst,
        key ∉ (merged.fields.take instanceFields).map Prod.fst) ∨
    ∃ key, definition.foldlM (Merged.addClass instanceFields) merged = .error (.named key) ∧
      key ∈ definition.map Prod.fst ∧ key ∈ (merged.fields.take instanceFields).map Prod.fst := by
  induction definition generalizing merged with
  | nil =>
      left
      refine ⟨merged, rfl, covers, (List.take_append_drop _ _).symm, ?_⟩
      intro key none
      cases none
  | cons field definition induction =>
      rw [List.foldlM_cons]
      rcases addClass_cases covers bound field with
        ⟨taken, step⟩ | ⟨free, next, step, covers', same⟩
      · right
        rw [step]
        exact ⟨field.1, rfl, List.mem_cons_self, taken⟩
      · have short : (merged.fields.take instanceFields).length = instanceFields := by
          rw [List.length_take, Nat.min_eq_left bound]
        have front : next.fields.take instanceFields = merged.fields.take instanceFields := by
          rw [same, List.take_left' short]
        have back : next.fields.drop instanceFields =
            override (merged.fields.drop instanceFields) field := by
          rw [same, List.drop_left' short]
        have bound' : instanceFields ≤ next.fields.length := by
          rw [same, List.length_append]
          omega
        rw [step]
        have rest := induction covers' bound'
        rw [front, back] at rest
        rcases rest with ⟨after, run, last, equal, apart⟩ | ⟨key, run, member, taken⟩
        · left
          refine ⟨after, run, last, equal, ?_⟩
          intro key member
          rcases List.mem_cons.mp member with rfl | later
          · exact free
          · exact apart key later
        · right
          exact ⟨key, run, List.mem_cons_of_mem _ member, taken⟩

end Stages

section Merge

variable {type : TType κ ν}

theorem Laid.found_iff (laid : Laid type) {key : κ} {i : Nat} :
    Keyed.find key type.keyIndex = some i ↔ type.keys[i]? = some key := by
  rw [Keyed.find_iff laid.ordered]
  exact laid.placed key i

/-- `f_index` finds exactly the keys that there are, each with its place. -/
theorem Laid.index_eq (laid : Laid type) (key : κ) :
    (key ∈ type.keys ∧ type.keys[type.index key]? = some key) ∨
      (key ∉ type.keys ∧ type.index key = type.size) := by
  have search : Keyed.search type.keyIndex key 0 type.keyIndex.length =
      Keyed.find key type.keyIndex := Keyed.search_eq laid.ordered
  rw [laid.complete] at search
  unfold index
  rw [search]
  cases found : Keyed.find key type.keyIndex with
  | some i =>
      left
      have place := laid.found_iff.mp found
      exact ⟨List.mem_of_getElem? place, place⟩
  | none =>
      right
      refine ⟨?_, rfl⟩
      intro member
      obtain ⟨i, short, here⟩ := List.mem_iff_getElem.mp member
      rw [laid.found_iff.mpr (List.getElem?_eq_some_iff.mpr ⟨short, here⟩)] at found
      cases found

/-- The fields of the base as `f_merge` starts. -/
theorem Laid.start (laid : Laid type) : Covers ⟨type.instances, type.keyIndex⟩ type.classes := by
  have whole : type.instances ++ type.classes = type.fields := List.take_append_drop _ _
  have keys : type.keys = type.instances.map Prod.fst ++ type.classes.map Prod.fst := by
    rw [← List.map_append, whole]
    rfl
  refine ⟨laid.ordered, ?_, ?_, ?_, ?_⟩
  · simp only [whole]
    exact laid.distinct
  · intro key i away
    rw [laid.found_iff, keys]
    rcases Nat.lt_or_ge i (type.instances.map Prod.fst).length with early | late
    · rw [List.getElem?_append_left early]
    · rw [List.getElem?_append_right late, List.getElem?_eq_none late]
      constructor
      · intro place
        exact absurd (List.mem_of_getElem? place) away
      · intro none
        cases none
  · intro key member absent
    have inside : key ∈ type.keys := by
      rw [keys]
      exact List.mem_append_right _ member
    obtain ⟨i, short, here⟩ := List.mem_iff_getElem.mp inside
    simp only [laid.found_iff.mpr (List.getElem?_eq_some_iff.mpr ⟨short, here⟩)] at absent
    cases absent
  · rw [laid.complete, ← List.length_append, whole]
    rfl

theorem Laid.of_covers {merged : Merged κ ν} {instanceFields : Nat} (covers : Covers merged [])
    (bound : instanceFields ≤ merged.fields.length) :
    Laid ⟨instanceFields, merged.fields, merged.table⟩ := by
  refine ⟨bound, covers.unique, covers.ordered, ?_, ?_⟩
  · intro key i
    rw [← Keyed.find_iff covers.ordered]
    exact covers.found_iff
  · exact covers.complete

/-- What `f_merge` makes of the fields of a type and of a definition. -/
def lay (type : TType κ ν) (definition : Fields κ ν) : List (κ × Option ν) :=
  (type.instances ++ definition.instance_.map fun key => (key, none)) ++
    definition.class_.foldl override type.classes

theorem lay_blank {definition : Fields κ ν} (none : definition.instance_ = []) :
    blank.lay definition = definition.class_.foldl override [] := by
  unfold lay
  rw [none]
  rfl

theorem merge_cases (laid : Laid type) (definition : Fields κ ν) :
    (∃ merged, type.merge definition = .ok merged ∧ Covers merged [] ∧
      merged.fields = type.lay definition ∧ ¬ ∃ key, Clash type definition key) ∨
    ∃ key, type.merge definition = .error (.named key) ∧ Clash type definition key := by
  have copy : type.keyIndex.foldl (fun table entry => Keyed.emplace entry.1 entry.2 table) [] =
      type.keyIndex := by
    have ordered : Keyed.Ordered ([] ++ type.keyIndex) := laid.ordered
    exact Keyed.fold_emplace ordered
  have whole : type.instances ++ type.classes = type.fields := List.take_append_drop _ _
  have names : ((type.instances ++ definition.instance_.map fun key =>
      ((key, none) : κ × Option ν)).map Prod.fst) =
        type.instances.map Prod.fst ++ definition.instance_ := by
    rw [List.map_append, List.map_map]
    simp [Function.comp_def]
  unfold merge
  rw [copy]
  rcases addInstances laid.start definition.instance_ with
    ⟨first, run, covers, fields⟩ | ⟨before, key, later, place, run, taken⟩
  · obtain ⟨second, run', covers', fields'⟩ := inherits covers
    have take : second.fields.take first.fields.length =
        type.instances ++ definition.instance_.map fun key => (key, none) := by
      rw [fields', List.take_left, fields]
    have drop : second.fields.drop first.fields.length = type.classes := by
      rw [fields', List.drop_left]
    have bound : first.fields.length ≤ second.fields.length := by
      rw [fields', List.length_append]
      omega
    have last := addClasses covers' bound definition.class_
    rw [take, drop, names] at last
    simp only [run, run', bind, Except.bind]
    rcases last with ⟨third, run'', covers'', fields'', apart⟩ | ⟨key, run'', member, taken⟩
    · left
      refine ⟨third, run'', covers'', fields'', ?_⟩
      rintro ⟨key, ⟨before, after, place, repeats⟩ | ⟨member, taken⟩⟩
      · have distinct := covers.distinct
        rw [fields, List.map_append, names, place, List.nodup_append, List.nodup_append,
          List.nodup_append] at distinct
        obtain ⟨⟨_, ⟨_, _, first_⟩, second_⟩, _, third_⟩ := distinct
        rcases repeats with inside | twice
        · have inside' : key ∈ (type.instances ++ type.classes).map Prod.fst := by
            rw [whole]
            exact inside
          rw [List.map_append] at inside'
          rcases List.mem_append.mp inside' with front | back
          · exact second_ key front key (by simp) rfl
          · exact third_ key (by simp) key back rfl
        · exact first_ key twice key List.mem_cons_self rfl
      · apply apart key member
        rw [List.mem_append]
        exact taken
    · right
      refine ⟨key, run'', .class_ member ?_⟩
      rw [← List.mem_append]
      exact taken
  · right
    refine ⟨key, by simp only [run, bind, Except.bind], .instance_ before later place ?_⟩
    rw [whole] at taken
    exact taken

/-- The result of `f_derive`, where the type has its own `f_do_construct`. -/
theorem Laid.revalue (laid : Laid type) {fields : List (κ × Option ν)}
    (same : fields.map Prod.fst = type.keys) : Laid { type with fields := fields } := by
  have length : fields.length = type.size := by
    have equal := congrArg List.length same
    rwa [List.length_map, keys, List.length_map] at equal
  refine ⟨?_, ?_, laid.ordered, ?_, ?_⟩
  · exact Nat.le_trans laid.instances (Nat.le_of_eq length.symm)
  · simp only [keys, same]
    exact laid.distinct
  · intro key i
    simp only [keys, same]
    exact laid.placed key i
  · exact laid.complete.trans length.symm

theorem laid_blank : Laid (blank : TType κ ν) := by
  refine ⟨Nat.le_refl _, List.nodup_nil, List.Pairwise.nil, ?_, rfl⟩
  intro key i
  simp [blank, keys]

omit [LinearOrder κ] in
theorem length_instances (bound : type.instanceFields ≤ type.size) :
    type.instances.length = type.instanceFields := by
  unfold instances
  rw [List.length_take]
  exact Nat.min_eq_left bound

theorem mem_keys_fold_override (fields definition : List (κ × Option ν)) (key : κ) :
    key ∈ (definition.foldl override fields).map Prod.fst ↔
      key ∈ fields.map Prod.fst ∨ key ∈ definition.map Prod.fst := by
  induction definition generalizing fields with
  | nil => simp
  | cons field definition induction =>
      rw [List.foldl_cons, induction, keys_override, List.map_cons, List.mem_append, List.mem_cons]
      split
      · rename_i present
        constructor
        · rintro ((inside | none) | later)
          · exact .inl inside
          · cases none
          · exact .inr (.inr later)
        · rintro (inside | rfl | later)
          · exact .inl (.inl inside)
          · exact .inl (.inl present)
          · exact .inr later
      · rw [List.mem_singleton, or_assoc]

end Merge

section Chain

variable [DecidableEq ν] {global : Global κ ν} {base type : TType κ ν} {definition : Fields κ ν}
  {overridden : Bool}

/-- `v_initialize_ignore` for `v_initialize_validate` -/
def ignore (global : Global κ ν) (field : κ × Option ν) : κ × Option ν :=
  if field.2 = some global.validate then (field.1, some global.ignore_) else field

/-- How a derived type takes after its base. -/
structure Extends (global : Global κ ν) (base : TType κ ν) (definition : Fields κ ν)
    (overridden : Bool) (type : TType κ ν) : Prop where
  laid : Laid type
  instanceFields : type.instanceFields = base.instanceFields + definition.instance_.length
  instances : type.instances = base.instances ++ definition.instance_.map fun key => (key, none)
  order : base.classes.map Prod.fst <+: type.classes.map Prod.fst
  values : ∀ i field, base.classes[i]? = some field →
    type.classes[i]? = some (
      if overridden ∧ i = 0 then ignore global (latest definition.class_ field)
      else latest definition.class_ field)
  members : ∀ key, key ∈ type.classes.map Prod.fst ↔
    key ∈ base.classes.map Prod.fst ∨ key ∈ definition.class_.map Prod.fst

/-- The type has its own `f_do_construct`. -/
theorem Extends.ignored (extends_ : Extends global base definition false type) :
    Extends global base definition true
      { type with fields := type.fields.modify type.instanceFields (ignore global) } := by
  have keep : ∀ field, (ignore global field).1 = field.1 := by
    intro field
    unfold ignore
    split <;> rfl
  have back : (type.fields.modify type.instanceFields (ignore global)).drop type.instanceFields =
      type.classes.modify 0 (ignore global) := by
    rw [List.drop_modify_of_ge _ _ _ _ (Nat.le_refl _), Nat.sub_self]
    rfl
  have front : (type.fields.modify type.instanceFields (ignore global)).take type.instanceFields =
      type.instances := by
    rw [List.take_modify]
    apply List.modify_eq_self
    rw [List.length_take]
    exact Nat.min_le_left _ _
  refine ⟨extends_.laid.revalue (keys_modify _ _ _ keep), extends_.instanceFields,
    front.trans extends_.instances, ?_, ?_, ?_⟩
  · simp only [classes, back, keys_modify _ _ _ keep]
    exact extends_.order
  · intro i field place
    have value := extends_.values i field place
    rw [if_neg (fun both => Bool.noConfusion both.1)] at value
    simp only [classes] at value back ⊢
    rw [back, List.getElem?_modify, value]
    cases i with
    | zero => simp
    | succ i => simp
  · intro key
    simp only [classes, back, keys_modify _ _ _ keep]
    exact extends_.members key

theorem derive_cases (global : Global κ ν) (laid : Laid base) (definition : Fields κ ν)
    (overridden : Bool) :
    (∃ type, derive_ global base definition overridden = .ok type ∧
      Extends global base definition overridden type ∧ ¬ ∃ key, Clash base definition key) ∨
    ∃ key, derive_ global base definition overridden = .error (.named key) ∧
      Clash base definition key := by
  unfold derive_
  rcases merge_cases laid definition with ⟨merged, run, covers, fields, free⟩ | ⟨key, run, clash⟩
  · left
    have front : (base.instances ++ definition.instance_.map fun key =>
        ((key, none) : κ × Option ν)).length =
          base.instanceFields + definition.instance_.length := by
      rw [List.length_append, List.length_map, length_instances laid.instances]
    have take : merged.fields.take (base.instanceFields + definition.instance_.length) =
        base.instances ++ definition.instance_.map fun key => (key, none) := by
      rw [fields]
      exact List.take_left' front
    have drop : merged.fields.drop (base.instanceFields + definition.instance_.length) =
        definition.class_.foldl override base.classes := by
      rw [fields]
      exact List.drop_left' front
    have bound : base.instanceFields + definition.instance_.length ≤ merged.fields.length := by
      rw [fields, lay, List.length_append, front]
      omega
    have plain := Laid.of_covers covers bound
    have distinct : (base.classes.map Prod.fst).Nodup := by
      have whole := laid.start.distinct
      rw [List.map_append, List.nodup_append] at whole
      exact whole.2.1
    have plain : Extends global base definition false
        ⟨base.instanceFields + definition.instance_.length, merged.fields, merged.table⟩ := by
      refine ⟨Laid.of_covers covers bound, rfl, take, ?_, ?_, ?_⟩
      · simp only [classes, drop]
        exact keys_fold_override _ _
      · intro i field place
        rw [if_neg (fun both => Bool.noConfusion both.1)]
        simp only [classes, drop]
        exact fold_override distinct place
      · intro key
        simp only [classes, drop]
        exact mem_keys_fold_override _ _ key
    rw [run]
    cases overridden with
    | false => exact ⟨_, rfl, plain, free⟩
    | true => exact ⟨_, rfl, plain.ignored, free⟩
  · right
    exact ⟨key, by rw [run]; rfl, clash⟩

/-- The types derived from a base, one after another. -/
inductive Descends (global : Global κ ν) (base : TType κ ν) : TType κ ν → Prop
  | refl : Descends global base base
  | derive {type next : TType κ ν} {definition : Fields κ ν} {overridden : Bool}
      (descends : Descends global base type)
      (derived : derive_ global type definition overridden = .ok next) :
      Descends global base next

theorem extends_of_derive (laid : Laid base)
    (derived : derive_ global base definition overridden = .ok type) :
    Extends global base definition overridden type := by
  rcases derive_cases global laid definition overridden with
    ⟨other, run, extends_, _⟩ | ⟨key, run, _⟩
  · rw [derived] at run
    rw [Except.ok.inj run]
    exact extends_
  · rw [derived] at run
    cases run

omit [DecidableEq ν] in
theorem laid_object (defined : blank.define_ (specials global) = .ok type) :
    Laid type ∧ type.classes.map Prod.fst = Special.all.map global.symbol := by
  have names : ((specials global).class_).map Prod.fst = Special.all.map global.symbol := by
    unfold specials
    rw [List.map_map]
    rfl
  unfold define_ at defined
  rcases merge_cases laid_blank (specials global) with
    ⟨merged, run, covers, fields, _⟩ | ⟨key, run, _⟩
  · rw [run] at defined
    obtain rfl := Except.ok.inj defined
    refine ⟨Laid.of_covers covers (Nat.zero_le _), ?_⟩
    have distinct : ((specials global).class_.map Prod.fst).Nodup := by
      rw [names]
      exact Special.all_nodup.map global.distinct
    rw [lay_blank rfl, fold_override_fresh distinct, List.nil_append] at fields
    have none : (specials global).instance_.length = 0 := rfl
    rw [← names]
    simp only [classes, none, List.drop_zero, fields]
  · rw [run] at defined
    cases defined

theorem laid_of_built (built : Built global type) :
    Laid type ∧ Special.all.map global.symbol <+: type.classes.map Prod.fst := by
  induction built with
  | object defined =>
      obtain ⟨laid, names⟩ := laid_object defined
      rw [names]
      exact ⟨laid, List.prefix_refl _⟩
  | derive built derived induction =>
      have extends_ := extends_of_derive induction.1 derived
      exact ⟨extends_.laid, induction.2.trans extends_.order⟩

theorem built_of_descends (built : Built global base) (descends : Descends global base type) :
    Built global type := by
  induction descends with
  | refl => exact built
  | derive descends derived induction => exact .derive induction derived

theorem prefix_of_descends (built : Built global base) (descends : Descends global base type) :
    base.instances <+: type.instances ∧
      base.classes.map Prod.fst <+: type.classes.map Prod.fst := by
  induction descends with
  | refl => exact ⟨List.prefix_refl _, List.prefix_refl _⟩
  | derive descends derived induction =>
      have extends_ :=
        extends_of_derive (laid_of_built (built_of_descends built descends)).1 derived
      constructor
      · apply induction.1.trans
        rw [extends_.instances]
        exact List.prefix_append _ _
      · exact induction.2.trans extends_.order

omit [DecidableEq ν] in
theorem special_place (laid : Laid type)
    (specials : Special.all.map global.symbol <+: type.classes.map Prod.fst) (special : Special) :
    type.keys[type.instanceFields + special.number]? = some (global.symbol special) := by
  have whole : type.keys = type.instances.map Prod.fst ++ type.classes.map Prod.fst := by
    rw [← List.map_append]
    exact congrArg _ (List.take_append_drop _ _).symm
  have front : (type.instances.map Prod.fst).length = type.instanceFields := by
    rw [List.length_map]
    exact length_instances laid.instances
  obtain ⟨rest, equal⟩ := specials
  have here : (Special.all.map global.symbol)[special.number]? = some (global.symbol special) := by
    rw [List.getElem?_map, Special.number_eq]
    rfl
  obtain ⟨short, _⟩ := List.getElem?_eq_some_iff.mp here
  rw [whole, ← front, List.getElem?_append_right (Nat.le_add_right _ _), Nat.add_sub_cancel_left,
    ← equal, List.getElem?_append_left short]
  exact here

/-- A chain of derivations keeps the layout of its base, `f_index` finds exactly the keys
that there are, and a derivation ends with a type or with a key that clashes. -/
theorem layout_of_chain (built : Built global base) :
    (∀ type, Descends global base type →
      Laid type ∧
      base.instances <+: type.instances ∧
      base.classes.map Prod.fst <+: type.classes.map Prod.fst ∧
      (∀ special : Special,
        type.keys[type.instanceFields + special.number]? = some (global.symbol special)) ∧
      ∀ key, (key ∈ type.keys ∧ type.keys[type.index key]? = some key) ∨
        (key ∉ type.keys ∧ type.index key = type.size)) ∧
    ∀ definition overridden,
      (∃ type, derive_ global base definition overridden = .ok type ∧
        Extends global base definition overridden type ∧ ¬ ∃ key, Clash base definition key) ∨
      ∃ key, derive_ global base definition overridden = .error (.named key) ∧
        Clash base definition key := by
  constructor
  · intro type descends
    obtain ⟨laid, specials⟩ := laid_of_built (built_of_descends built descends)
    obtain ⟨instances, classes⟩ := prefix_of_descends built descends
    exact ⟨laid, instances, classes, special_place laid specials, laid.index_eq⟩
  · intro definition overridden
    exact derive_cases global (laid_of_built built).1 definition overridden

end Chain

/-- Symbols at the addresses of their numbers. -/
def numbered : Global Nat Nat where
  symbol := Special.number
  distinct := by
    intro left right same
    have found := Special.number_eq left
    rw [same, Special.number_eq right] at found
    exact (Option.some.inj found).symm
  method special := some special.number
  validate := 0
  ignore_ := 100

/-- A class with a field of its instances at 30, a method that overrides the fifth, and a
new one. -/
theorem layout_of_numbered :
    ∃ base type, Built numbered base ∧
      derive_ numbered base ⟨[30], [(4, some 7), (26, some 8)]⟩ true = .ok type ∧
      Extends numbered base ⟨[30], [(4, some 7), (26, some 8)]⟩ true type := by
  have done : (match blank.define_ (specials numbered) with
      | .error _ => none
      | .ok base =>
          (derive_ numbered base ⟨[30], [(4, some 7), (26, some 8)]⟩ true).toOption).isSome := by
    decide
  cases defined : blank.define_ (specials numbered) with
  | error thrown =>
      rw [defined] at done
      cases done
  | ok base =>
      rcases (layout_of_chain (.object defined)).2 ⟨[30], [(4, some 7), (26, some 8)]⟩ true with
        ⟨type, derived, extends_, _⟩ | ⟨key, failed, _⟩
      · exact ⟨base, type, .object defined, derived, extends_⟩
      · rw [defined] at done
        simp only [failed] at done
        cases done

end Xemmai.TType
