import Xemmai.Ring

/-!
# Scopes

What the parser keeps of a scope. The variables are known by their names, and each
member of theirs is a function of the name; those that are created have neither
flag. The arguments and the other variables are linked in `v_privates`, from which
`f_classify` unlinks the shared ones that are no arguments.
-/

namespace Xemmai.Parser

set_option autoImplicit false

/-- `ast::t_scope`; `v_privates` is `tail`, `size` and `next`. -/
structure Scope where
  isShared : Bool
  selfShared : Bool
  references : List String
  unresolveds : List String
  names : List String
  shared : String → Bool
  varies : String → Bool
  index : String → Option Nat
  next : String → String
  tail : Option String
  size : Nat
  shareds : Nat

namespace Scope

def empty : Scope where
  isShared := false
  selfShared := false
  references := []
  unresolveds := []
  names := []
  shared _ := false
  varies _ := false
  index _ := none
  next name := name
  tail := none
  size := 0
  shareds := 0

/-- `v_privates.f_push` -/
def push (scope : Scope) (name : String) : Scope :=
  let (next, tail) := Ring.push scope.next scope.tail name
  { scope with next := next, tail := tail, size := scope.size + 1 }

/-- `v_variables.emplace` -/
def emplace (scope : Scope) (name : String) : Scope :=
  if name ∈ scope.names then scope
  else { scope with names := scope.names ++ [name] }

def parameter (scope : Scope) (name : String) : Scope :=
  (scope.emplace name).push name

def variable_ (scope : Scope) (name : String) : Scope :=
  if name ∈ scope.names then
    { scope with varies := Function.update scope.varies name true }
  else (scope.emplace name).push name

def share (scope : Scope) (name : String) : Scope :=
  { scope with
    shared := Function.update scope.shared name true
    varies := Function.update scope.varies name true }

def reference (scope : Scope) (name : String) : Scope :=
  { scope with references := scope.references.insert name }

def unresolve (scope : Scope) (name : String) : Scope :=
  { scope with unresolveds := scope.unresolveds.insert name }

/-- The loop of `f_vary`, behind `name` up to the tail. -/
def varyBehind : Nat → String → Scope → Option Scope
  | 0, _, _ => none
  | fuel + 1, name, scope =>
    let name := scope.next name
    let scope := { scope with varies := Function.update scope.varies name true }
    if scope.tail = some name then some scope else varyBehind fuel name scope

def vary (scope : Scope) (name : Option String) : Option Scope :=
  if name = scope.tail then some scope
  else
    match scope.tail with
    | none => none
    | some tail => varyBehind scope.names.length (name.getD tail) scope

def classify : Nat → String → Scope → Option Scope
  | 0, _, _ => none
  | fuel + 1, name, scope =>
    let variable_ := scope.next name
    if scope.shared variable_ then
      let unlinked := { scope with
        index := Function.update scope.index variable_ (some scope.shareds)
        shareds := scope.shareds + 1
        next := Function.update scope.next name (scope.next variable_) }
      if scope.tail = some variable_ then
        some { unlinked with tail := if variable_ = name then none else some name }
      else classify fuel name unlinked
    else
      let kept := { scope with
        index := Function.update scope.index variable_ (some scope.size)
        size := scope.size + 1 }
      if scope.tail = some variable_ then some kept else classify fuel variable_ kept

/-- The loop over the arguments from the `i`th on, and where it ends. -/
def number : Nat → Nat → String → Scope → String × Scope
  | 0, _, name, scope => (name, scope)
  | count + 1, i, name, scope =>
    let name := scope.next name
    if scope.shared name then
      number count (i + 1) name { scope with
        index := Function.update scope.index name (some scope.shareds)
        shareds := scope.shareds + 1 }
    else
      number count (i + 1) name { scope with
        index := Function.update scope.index name (some i) }

def resolve (scope : Scope) : Scope :=
  { scope with
    shared name := scope.shared name ||
      decide (name ∈ scope.names ∧ name ∈ scope.unresolveds) }

def escaping (scope : Scope) : List String :=
  (scope.unresolveds ++ scope.references).filter (· ∉ scope.names)

/-- The loop over the arguments from the tail on, and `f_classify` unless it has come
to the tail again. -/
def settle (scope : Scope) (arguments : Nat) (tail : String) : Option Scope :=
  let (name, numbered) := number arguments 0 tail scope
  if 0 < arguments ∧ name = tail then some numbered
  else classify numbered.names.length name { numbered with size := arguments }

/-- The end of a scope with `arguments`, those of a module being none. -/
def close (scope : Scope) (arguments : Nat) : Option Scope :=
  let scope := { scope with
    shareds := if scope.selfShared then scope.shareds + 1 else scope.shareds }
  match scope.tail with
  | none => if arguments = 0 then some scope else none
  | some tail => scope.settle arguments tail

end Scope

end Xemmai.Parser
