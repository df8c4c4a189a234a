import Mathlib.Data.BitVec
import Mathlib.Data.List.Induction

/-!
# Paths

`portable::t_path` on unix: what `operator/=` makes of the characters of a path, and
the directories that the paths stand for. There is no result where the source would
read behind the end of a string or erase behind it.
-/

namespace Xemmai

set_option autoImplicit false

namespace TPath

/-- `wchar_t` -/
abbrev Wide := BitVec 32

/-- `v_directory_separator` -/
def separator : Wide := 0x2F

def dot : Wide := 0x2E

/-- The loop that takes the characters up to the next separator; what it leaves is
behind the separator. -/
def component : List Wide → List Wide × List Wide
  | [] => ([], [])
  | c :: rest =>
      if c = separator then ([], rest)
      else (c :: (component rest).1, (component rest).2)

/-- `find_last_of(v_directory_separator)` -/
def findLast : List Wide → Option Nat
  | [] => none
  | c :: rest =>
      match findLast rest with
      | some n => some (n + 1)
      | none => if c = separator then some 0 else none

/-- What a turn of the loop does with `s`. -/
def enter (path s : List Wide) : Option (List Wide) :=
  if s = [] ∨ s = [dot] then some path
  else if s = [dot, dot] then do
    let n ← findLast path
    some (if 0 < n then path.take n else path)
  else do
    let back ← path.getLast?
    some ((if back = separator then path else path ++ [separator]) ++ s)

theorem component_shorter (c : Wide) (rest : List Wide) :
    (component (c :: rest)).2.length < (c :: rest).length := by
  induction rest generalizing c with
  | nil =>
      simp only [component]
      split <;> simp
  | cons c' rest induction =>
      rw [component]
      split
      · simp
      · have shorter := induction c'
        simp only [List.length_cons] at shorter ⊢
        omega

/-- `operator/=` -/
def divide (path : List Wide) : List Wide → Option (List Wide)
  | [] => some path
  | c :: rest => do
      let path ← enter path (component (c :: rest)).1
      divide path (component (c :: rest)).2
termination_by text => text.length
decreasing_by exact component_shorter c rest

/-- A component that is the name of an entry of a directory. -/
structure Named (s : List Wide) : Prop where
  nonempty : s ≠ []
  dots : s ≠ [dot] ∧ s ≠ [dot, dot]
  plain : separator ∉ s

/-- Where the components of a text lead from a directory; the names of a directory are
those from the root on. -/
def walk (names : List (List Wide)) (s : List Wide) : List (List Wide) :=
  if s = [] ∨ s = [dot] then names
  else if s = [dot, dot] then names.dropLast
  else names ++ [s]

/-- A directory by the names of its entries from the root on. -/
structure Location where
  names : List (List Wide)
  named : ∀ name ∈ names, Named name

def render (names : List (List Wide)) : List Wide :=
  if names = [] then [separator] else names.flatMap (separator :: ·)

def Location.join (location : Location) (text : List Wide) : List (List Wide) :=
  (text.splitOn separator).foldl walk location.names

/-- What a component does to the path of a directory in the code, which never goes up
from a directory of the root. -/
def move (names : List (List Wide)) (s : List Wide) : List (List Wide) :=
  if s = [dot, dot] ∧ names.length ≤ 1 then names else walk names s

section

variable {names : List (List Wide)} {name s : List Wide}

theorem find_last_absent (plain : separator ∉ s) : findLast s = none := by
  induction s with
  | nil => rfl
  | cons c rest induction =>
      rw [List.mem_cons, not_or] at plain
      rw [findLast, induction plain.2]
      simp only [if_neg (Ne.symm plain.1)]

theorem find_last_append (path : List Wide) (plain : separator ∉ s) :
    findLast (path ++ separator :: s) = some path.length := by
  induction path with
  | nil =>
      rw [List.nil_append, findLast, find_last_absent plain]
      simp
  | cons c path induction =>
      rw [List.cons_append, findLast, induction]
      simp

theorem render_concat (names : List (List Wide)) (name : List Wide) :
    render (names ++ [name]) = names.flatMap (separator :: ·) ++ separator :: name := by
  simp [render]

theorem render_nonempty (nonempty : names ≠ []) :
    render names = names.flatMap (separator :: ·) := by
  rw [render, if_neg nonempty]

/-- The path of a directory ends in a separator only if it is the root. -/
theorem last_render (named : ∀ name ∈ names, Named name) :
    ∃ back, (render names).getLast? = some back ∧ (back = separator ↔ names = []) := by
  cases names using List.reverseRecOn with
  | nil => exact ⟨separator, rfl, by simp⟩
  | append_singleton names name =>
      have last := named name (by simp)
      have found := List.getLast?_eq_some_getLast last.nonempty
      refine ⟨name.getLast last.nonempty, ?_, ?_⟩
      · rw [render_concat, List.getLast?_append, List.getLast?_cons, found]
        rfl
      · have inside := List.getLast_mem last.nonempty
        constructor
        · intro same
          rw [same] at inside
          exact absurd inside last.plain
        · intro none
          simp at none

theorem walk_named (named : ∀ name ∈ names, Named name) (plain : separator ∉ s) :
    ∀ name ∈ walk names s, Named name := by
  intro name member
  unfold walk at member
  split at member
  · exact named name member
  · rename_i more
    split at member
    · exact named name (List.mem_of_mem_dropLast member)
    · rename_i down
      rw [not_or] at more
      rcases List.mem_append.mp member with member | member
      · exact named name member
      · rw [List.mem_singleton.mp member]
        exact ⟨more.1, ⟨more.2, down⟩, plain⟩

theorem move_named (named : ∀ name ∈ names, Named name) (plain : separator ∉ s) :
    ∀ name ∈ move names s, Named name := by
  unfold move
  split
  · exact named
  · exact walk_named named plain

/-- A turn of the loop takes the path of a directory to that of a directory. -/
theorem enter_render (named : ∀ name ∈ names, Named name) :
    enter (render names) s = some (render (move names s)) := by
  by_cases stays : s = [] ∨ s = [dot]
  · have other : ¬(s = [dot, dot] ∧ names.length ≤ 1) := by
      rintro ⟨rfl, -⟩
      simp at stays
    rw [enter, if_pos stays, move, if_neg other, walk, if_pos stays]
  · by_cases up : s = [dot, dot]
    · rw [enter, if_neg stays, if_pos up, move, walk, if_neg stays, if_pos up]
      cases names using List.reverseRecOn with
      | nil => simp [render, findLast, up]
      | append_singleton names name =>
          have last := named name (by simp)
          rw [render_concat, find_last_append _ last.plain]
          simp only [Option.bind_eq_bind, Option.bind_some, Option.some.injEq]
          by_cases root : names = []
          · subst root
            simp [render, up]
          · have longer : 0 < (names.flatMap (separator :: ·)).length := by
              cases names with
              | nil => exact absurd rfl root
              | cons first names => simp
            have deep : ¬(s = [dot, dot] ∧ (names ++ [name]).length ≤ 1) := by
              rintro ⟨-, short⟩
              rw [List.length_append, List.length_singleton] at short
              exact root (List.eq_nil_of_length_eq_zero (by omega))
            rw [if_pos longer, if_neg deep, List.take_left, List.dropLast_concat,
              render_nonempty root]
    · obtain ⟨back, found, root⟩ := last_render named
      have other : ¬(s = [dot, dot] ∧ names.length ≤ 1) := fun both => up both.1
      rw [enter, if_neg stays, if_neg up, found, move, if_neg other, walk, if_neg stays,
        if_neg up, render_concat]
      simp only [Option.bind_eq_bind, Option.bind_some, Option.some.injEq, root]
      split
      · rename_i none
        subst none
        simp [render]
      · rename_i nonempty
        rw [render_nonempty nonempty]
        simp

theorem component_plain (text : List Wide) : separator ∉ (component text).1 := by
  induction text with
  | nil => exact List.not_mem_nil
  | cons c rest induction =>
      rw [component]
      split
      · exact List.not_mem_nil
      · rename_i other
        rw [List.mem_cons, not_or]
        exact ⟨Ne.symm other, induction⟩

/-- The loop takes the components of a text one by one; behind a separator at the end it
takes none, where there is an empty one. -/
theorem component_split (text : List Wide) :
    text.splitOn separator = (component text).1 :: (component text).2.splitOn separator ∨
      text.splitOn separator = [(component text).1] ∧ (component text).2 = [] := by
  induction text with
  | nil => exact .inr ⟨rfl, rfl⟩
  | cons c rest induction =>
      rw [List.splitOn_cons_eq_if_modifyHead, component]
      by_cases same : c = separator
      · simp only [beq_iff_eq, if_pos same, true_or]
      · simp only [beq_iff_eq, if_neg same]
        rcases induction with split | ⟨split, none⟩
        · rw [split]
          exact .inl rfl
        · rw [split]
          exact .inr ⟨rfl, none⟩

theorem split_plain (text : List Wide) : ∀ part ∈ text.splitOn separator, separator ∉ part := by
  induction length : text.length using Nat.strong_induction_on generalizing text with
  | _ n induction =>
      intro part member
      cases text with
      | nil =>
          rw [List.splitOn_nil, List.mem_singleton] at member
          rw [member]
          exact List.not_mem_nil
      | cons c rest =>
          have shorter := component_shorter c rest
          rw [length] at shorter
          rcases component_split (c :: rest) with split | ⟨split, -⟩
          · rw [split, List.mem_cons] at member
            rcases member with rfl | later
            · exact component_plain _
            · exact induction _ shorter _ rfl part later
          · rw [split, List.mem_singleton] at member
            rw [member]
            exact component_plain _

theorem divide_render (named : ∀ name ∈ names, Named name) (text : List Wide) :
    divide (render names) text =
        some (render ((text.splitOn separator).foldl move names)) ∧
      ∀ name ∈ (text.splitOn separator).foldl move names, Named name := by
  induction length : text.length using Nat.strong_induction_on generalizing names text with
  | _ n induction =>
      cases text with
      | nil => exact ⟨by simp [divide, move, walk], by simpa [move, walk] using named⟩
      | cons c rest =>
          have shorter := component_shorter c rest
          rw [length] at shorter
          have plain := component_plain (c :: rest)
          have entered := move_named named plain
          obtain ⟨divided, reached⟩ := induction _ shorter entered _ rfl
          have fold : ((c :: rest).splitOn separator).foldl move names =
              ((component (c :: rest)).2.splitOn separator).foldl move
                (move names (component (c :: rest)).1) := by
            rcases component_split (c :: rest) with split | ⟨split, none⟩
            · rw [split, List.foldl_cons]
            · rw [split, none]
              simp [move, walk]
          rw [fold]
          refine ⟨?_, reached⟩
          rw [divide, enter_render named]
          exact divided

theorem join_named (location : Location) (text : List Wide) :
    ∀ name ∈ location.join text, Named name := by
  have plain := split_plain text
  unfold Location.join
  generalize text.splitOn separator = parts at plain
  have named := location.named
  revert named
  generalize location.names = names
  intro named
  induction parts generalizing names with
  | nil => exact named
  | cons part parts induction =>
      exact induction (fun part member => plain part (List.mem_cons_of_mem _ member)) _
        (walk_named named (plain part List.mem_cons_self))

theorem move_cons (first : List Wide) (names : List (List Wide)) (s : List Wide) :
    move (first :: names) s = first :: walk names s := by
  unfold move walk
  by_cases stays : s = [] ∨ s = [dot]
  · simp [stays]
  · by_cases up : s = [dot, dot]
    · cases names <;> simp [up]
    · simp [stays, up]

theorem fold_move_cons (first : List Wide) (names parts : List (List Wide)) :
    parts.foldl move (first :: names) = first :: parts.foldl walk names := by
  induction parts generalizing names with
  | nil => rfl
  | cons part parts induction => rw [List.foldl_cons, List.foldl_cons, move_cons, induction]

/-- No component of a text goes up from a directory of the root. -/
def Below (names parts : List (List Wide)) : Prop :=
  ∀ before after, parts = before ++ [dot, dot] :: after →
    (before.foldl walk names).length ≠ 1

theorem below_cons (names : List (List Wide)) (part : List Wide) (parts : List (List Wide)) :
    Below names (part :: parts) ↔
      ¬(part = [dot, dot] ∧ names.length = 1) ∧ Below (walk names part) parts := by
  constructor
  · intro below
    refine ⟨?_, ?_⟩
    · rintro ⟨rfl, single⟩
      exact below [] parts rfl single
    · intro before after split
      exact below (part :: before) after (by rw [split, List.cons_append])
  · rintro ⟨here, below⟩ before after split
    cases before with
    | nil =>
        obtain ⟨rfl, -⟩ := List.cons.inj split
        exact fun single => here ⟨rfl, single⟩
    | cons first before =>
        obtain ⟨rfl, rest⟩ := List.cons.inj split
        exact below before after rest

theorem move_eq_walk (apart : ¬(s = [dot, dot] ∧ names.length = 1)) :
    move names s = walk names s := by
  unfold move
  split
  · rename_i both
    obtain ⟨rfl, short⟩ := both
    have none : names = [] := by
      apply List.eq_nil_of_length_eq_zero
      have other : names.length ≠ 1 := fun single => apart ⟨rfl, single⟩
      omega
    subst none
    simp [walk]
  · rfl

theorem fold_move_iff (names parts : List (List Wide)) :
    parts.foldl move names = parts.foldl walk names ↔ Below names parts := by
  induction parts generalizing names with
  | nil => exact ⟨fun _ before after split => by simp at split, fun _ => rfl⟩
  | cons part parts induction =>
      rw [below_cons, List.foldl_cons, List.foldl_cons]
      by_cases leaves : part = [dot, dot] ∧ names.length = 1
      · obtain ⟨rfl, single⟩ := leaves
        obtain ⟨first, rfl⟩ := List.length_eq_one_iff.mp single
        -- the code stays below the entry for good, and so keeps one name more
        have stays : move [first] [dot, dot] = [first] := by simp [move]
        rw [stays, fold_move_cons]
        have left : walk [first] [dot, dot] = [] := by simp [walk]
        rw [left]
        constructor
        · intro same
          exact absurd (congrArg List.length same) (by simp)
        · rintro ⟨here, -⟩
          exact absurd ⟨rfl, single⟩ here
      · rw [move_eq_walk leaves, induction]
        exact ⟨fun below => ⟨leaves, below⟩, fun both => both.2⟩

theorem render_injective {names names' : List (List Wide)}
    (named : ∀ name ∈ names, Named name) (named' : ∀ name ∈ names', Named name)
    (same : render names = render names') : names = names' := by
  induction names using List.reverseRecOn generalizing names' with
  | nil =>
      cases names' using List.reverseRecOn with
      | nil => rfl
      | append_singleton names' name' =>
          obtain ⟨back, found, root⟩ := last_render named
          obtain ⟨back', found', root'⟩ := last_render named'
          rw [same, found'] at found
          obtain rfl := Option.some.inj found
          exact absurd (root'.mp (root.mpr rfl)) (by simp)
  | append_singleton names name induction =>
      cases names' using List.reverseRecOn with
      | nil =>
          obtain ⟨back, found, root⟩ := last_render named
          obtain ⟨back', found', root'⟩ := last_render named'
          rw [same, found'] at found
          obtain rfl := Option.some.inj found
          exact absurd (root.mp (root'.mpr rfl)) (by simp)
      | append_singleton names' name' =>
          rw [render_concat, render_concat] at same
          have last := (named name (by simp)).plain
          have last' := (named' name' (by simp)).plain
          have place := find_last_append (names.flatMap (separator :: ·)) last
          rw [same, find_last_append _ last', Option.some.injEq] at place
          obtain ⟨front, back⟩ := List.append_inj same place.symm
          obtain ⟨-, rfl⟩ := List.cons.inj back
          have fronts : names = names' := by
            have empty : names = [] ↔ names' = [] := by
              constructor
              · rintro rfl
                cases names' with
                | nil => rfl
                | cons first rest => simp at front
              · rintro rfl
                cases names with
                | nil => rfl
                | cons first rest => simp at front
            apply induction (fun name member => named name (by simp [member]))
              (fun name member => named' name (by simp [member]))
            unfold render
            rw [front]
            simp only [empty]
          rw [fronts]

end

/-- The path of a directory divided by a text is always the path of a directory. It is
that of the directory the text leads to if and only if the text never goes up from a
directory of the root. -/
theorem divide_iff (location : Location) (text : List Wide) :
    (∃ reached : Location, divide (render location.names) text = some (render reached.names)) ∧
      (divide (render location.names) text = some (render (location.join text)) ↔
        Below location.names (text.splitOn separator)) := by
  obtain ⟨divided, reached⟩ := divide_render location.named text
  refine ⟨⟨⟨_, reached⟩, divided⟩, ?_⟩
  rw [divided, Option.some.injEq, ← fold_move_iff]
  constructor
  · intro same
    exact render_injective reached (join_named location text) same
  · intro same
    rw [same]
    rfl

/-- `/foo` divided by `..` stays `/foo`, whose parent is the root. -/
theorem entry_not_left : ∃ location : Location,
    location.names = [[0x66, 0x6F, 0x6F]] ∧
      divide (render location.names) [dot, dot] = some (render location.names) ∧
      location.join [dot, dot] = [] ∧
      divide (render location.names) [dot, dot] ≠ some (render (location.join [dot, dot])) := by
  have named : Named [0x66, 0x6F, 0x6F] := ⟨by decide, by decide, by decide⟩
  have stays : divide (render [[0x66, 0x6F, 0x6F]]) [dot, dot] =
      some (render [[0x66, 0x6F, 0x6F]]) := by
    simp [divide, component, enter, render, findLast, separator, dot]
  have left : ([dot, dot].splitOn separator).foldl walk [[0x66, 0x6F, 0x6F]] = [] := by decide
  refine ⟨⟨[[0x66, 0x6F, 0x6F]], by simpa using named⟩, rfl, stays, left, ?_⟩
  rw [stays, Location.join, left]
  decide

end TPath

end Xemmai
