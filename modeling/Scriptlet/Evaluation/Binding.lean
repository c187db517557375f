import Scriptlet.Evaluation.Reference

/-!
# Names, patterns and targets

## Main definitions

* `Machine.named` — the value of an expression; a function without a name of its own gets one.
* `Machine.nameKey` — the key that the name of a property stands for.
* `Machine.bindPattern` — giving a value to the names of a pattern.
* `Machine.referenceOf?` — the places that expressions stand for.
* `Machine.targetReference?`, `Machine.assignTarget` — assigning to targets and patterns of them.
-/

namespace Scriptlet

/-- The name that a pattern consists of. -/
def Pattern.name? : Pattern → Option String
  | .identifier n => some n
  | _ => none

/-- The name that a target consists of. -/
def Target.name? : Target → Option String
  | .identifier _ n => some n
  | _ => none

namespace Closure

/-- The closure with a name, unless it has one. -/
def withName (c : Closure) (name : String) : Closure :=
  if c.name.isEmpty then { c with name := name } else c

end Closure

/-- The object with a name, if it is a closure without one. -/
def Object.withName (o : Object) (name : String) : Object :=
  match o.kind with
  | .closure c => { o with kind := .closure (c.withName name) }
  | _ => o

namespace Eval

/-- Gives a name to a function without one. -/
def nameFunction (v : Value) (name : String) : Eval Unit :=
  match v with
  | .object id => modifyObject id (·.withName name)
  | _ => return

/-- Throws an error unless a value can be taken apart. -/
def requireParts (v : Value) : Eval Unit := do
  if v.isNullish then
    let word := v.nullishWord
    raise .typeError ("Cannot destructure '" ++ word ++ "' as it is " ++ word ++ ".")

end Eval

open Eval

namespace Machine

/-- The value of an expression; a function without a name of its own gets the given one. -/
def named (m : Machine) (e : Expr) (name : String) : Eval Value := do
  let v ← m.expression e
  if e.isAnonymousFunction then nameFunction v name
  return v

/-- The value of an expression; a function without a name of its own gets one, if there is one. -/
def namedBy (m : Machine) (e : Expr) : Option String → Eval Value
  | some name => m.named e name
  | none => m.expression e

/-- The key that the name of a property stands for. -/
def nameKey (m : Machine) : PropertyName → Eval PropertyKey
  | .fixed t => return .text t
  | .computed e => do m.toKey (← m.expression e)
  | .bigInt s => do m.toKey (← m.expression (.foreign s .bigInt))

/-! ### Patterns that declare names -/

/-- Gives a value to a name: for the first time in an environment, or by assignment. -/
def bindName (m : Machine) (name : String) (v : Value) : Option EnvironmentId → Eval Unit
  | some e => initializeVariable e name v
  | none => do m.writeReference (← resolve name) v

/-- Gives the values of a walk to patterns; what is left of the walk. -/
def bindElements (m : Machine) (e : Option EnvironmentId) :
    List (Option Pattern) → Walk → Eval Walk
  | [], w => return w
  | none :: rest, w => do m.bindElements e rest (← nextOf w).2
  | some p :: rest, w => do
    let (v, w) ← nextOf w
    m.run (.bind p (v.getD .undefined) e)
    m.bindElements e rest w

/-- Gives the properties of a value to patterns; the keys of the properties, the last first. -/
def bindProperties (m : Machine) (e : Option EnvironmentId) (v : Value) :
    List PatternProperty → List PropertyKey → Eval (List PropertyKey)
  | [], keys => return keys
  | p :: rest, keys => do
    let k ← m.nameKey p.name
    m.run (.bind p.value (← getOf v k) e)
    m.bindProperties e v rest (k :: keys)

/-- Gives a value to the names of a pattern. -/
def bindPattern (m : Machine) (p : Pattern) (v : Value) (e : Option EnvironmentId) :
    Eval Unit := do
  match p with
  | .identifier name => m.bindName name v e
  | .array elements rest =>
    -- The walk goes on behind the elements that were bound, so the rest takes what is left of it.
    let w ← m.bindElements e elements (← startWalk v)
    match rest with
    | none => return
    | some p => m.run (.bind p (← arrayOf (← restOf w)) e)
  | .object properties rest =>
    requireParts v
    let keys ← m.bindProperties e v properties []
    match rest with
    | none => return
    | some p =>
      let id ← emptyObject
      -- The rest has every property that no pattern before it has named.
      copyProperties id v keys
      m.run (.bind p (.object id) e)
  | .withDefault target initializer =>
    if v.isUndefined then m.run (.bind target (← m.namedBy initializer target.name?) e)
    else m.run (.bind target v e)

/-! ### Places -/

/-- The place that an expression stands for, if it is a name or a member. -/
def referenceOf? (m : Machine) (e : Expr) : Eval (Option Reference) := do
  match e.inner with
  | .identifier s name =>
    record (.evaluate "IdentifierReference" s)
    return some (← m.name s name)
  | .member s object name _ =>
    record (.evaluate "StaticMemberExpression" s)
    return some (.property (← m.expression object) name)
  | .index s object key _ =>
    record (.evaluate "ComputedMemberExpression" s)
    let base ← m.expression object
    return some (.property base (← m.toKey (← m.expression key)))
  | _ => return none

/-- The value of an expression that may be called, and what it is called on. -/
def callee (m : Machine) (e : Expr) : Eval (Value × Value) := do
  match ← m.referenceOf? e with
  | some r => return (← readReference r, r.receiver)
  | none => return (← m.expression e, .undefined)

/-- The place that a target stands for, unless it is a pattern. -/
def targetReference? (m : Machine) : Target → Eval (Option Reference)
  | .identifier s name => do
    record (.evaluate "IdentifierReference" s)
    return some (← m.name s name)
  | .member s object name => do
    record (.evaluate "StaticMemberExpression" s)
    return some (.property (← m.expression object) name)
  | .index s object key => do
    record (.evaluate "ComputedMemberExpression" s)
    let base ← m.expression object
    return some (.property base (← m.toKey (← m.expression key)))
  | .privateMember s _ => unsupported "PrivateFieldExpression" s
  | .wrapped _ content => do
    match ← m.referenceOf? content with
    | some r => return some r
    -- What is wrapped and no reference runs before it is refused.
    | none =>
      let _ ← m.expression content
      raise .syntaxError "Invalid left-hand side in assignment"
  | .array _ _ | .object _ _ => return none

/-! ### Targets -/

/-- Assigns to a target whose place is known, unless it is a pattern. -/
def assignAt (m : Machine) (t : Target) (r : Option Reference) (v : Value) : Eval Unit :=
  match r with
  | some r => m.writeReference r v
  | none => m.run (.assign t v)

/-- Assigns to a part of a pattern whose place is known; its initializer replaces undefined. -/
def assignPart (m : Machine) (e : TargetElement) (r : Option Reference) (v : Value) :
    Eval Unit := do
  match e.initializer with
  | some init =>
    if v.isUndefined then m.assignAt e.target r (← m.namedBy init e.target.name?)
    else m.assignAt e.target r v
  | none => m.assignAt e.target r v

/-- Assigns the values of a walk to the parts of a pattern; what is left of the walk. -/
def assignElements (m : Machine) : List (Option TargetElement) → Walk → Eval Walk
  | [], w => return w
  | none :: rest, w => do m.assignElements rest (← nextOf w).2
  | some e :: rest, w => do
    let r ← m.targetReference? e.target
    let (v, w) ← nextOf w
    m.assignPart e r (v.getD .undefined)
    m.assignElements rest w

/-- Assigns the properties of a value to the parts of a pattern; the keys of the properties, the
last first. -/
def assignProperties (m : Machine) (v : Value) :
    List TargetProperty → List PropertyKey → Eval (List PropertyKey)
  | [], keys => return keys
  | .shorthand s name init :: rest, keys => do
    -- The target is found before the value is read, as an assignment evaluates its left side first.
    let r ← m.name s name
    let w ← getOf v name
    match init with
    | some e =>
      if w.isUndefined then m.writeReference r (← m.named e name) else m.writeReference r w
    | none => m.writeReference r w
    m.assignProperties v rest (name :: keys)
  | .named name e :: rest, keys => do
    let k ← m.nameKey name
    let r ← m.targetReference? e.target
    m.assignPart e r (← getOf v k)
    m.assignProperties v rest (k :: keys)

/-- Assigns a value to a target. -/
def assignTarget (m : Machine) (t : Target) (v : Value) : Eval Unit := do
  match t with
  | .array elements rest =>
    let w ← m.assignElements elements (← startWalk v)
    match rest with
    | none => return
    | some t =>
      -- The target comes first here, too.
      let r ← m.targetReference? t
      m.assignAt t r (← arrayOf (← restOf w))
  | .object properties rest =>
    requireParts v
    let keys ← m.assignProperties v properties []
    match rest with
    | none => return
    | some t =>
      let r ← m.targetReference? t
      let id ← emptyObject
      copyProperties id v keys
      m.assignAt t r (.object id)
  | _ =>
    match ← m.targetReference? t with
    | some r => m.writeReference r v
    | none => return

end Machine

end Scriptlet
