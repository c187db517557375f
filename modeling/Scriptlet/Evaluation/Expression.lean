import Scriptlet.Builtin.Constructors
import Scriptlet.Evaluation.Function
import Scriptlet.Number.Double

/-!
# Expressions

## Main definitions

* `Machine.arguments`, `Machine.elements`, `Machine.properties` — lists of expressions.
* `Machine.unary`, `Machine.binary`, `Machine.logical`, `Machine.assignment` — operators.
* `Machine.invocation` — calls.
* `Machine.evaluateLink` — parts of chains.
* `Machine.evaluateExpression` — the value of an expression.
-/

namespace Scriptlet

/-- The value of a constant. -/
def Constant.value : Constant → Value
  | null => .null
  | boolean b => .boolean b
  | number x => .number x
  | string t => .text t

/-- The text that a piece of a template stands for. -/
def Quasi.text (q : Quasi) : Text := q.value.getD (Text.ofString q.raw)

/-- Whether the left operand of a logical operator decides its value. -/
def LogicalOp.isDecidedBy : LogicalOp → Value → Bool
  | .and, v => !v.isTrue
  | .or, v => v.isTrue
  | .coalesce, v => !v.isNullish

/-- Whether the operator of an assignment can be evaluated. -/
def AssignOp.isSupported : AssignOp → Bool
  | .binary op => op.isSupported
  | _ => true

/-- Whether the target is a pattern. -/
def Target.isPattern : Target → Bool
  | .array _ _ | .object _ _ => true
  | _ => false

namespace Eval

/-- The array of the pieces of a template, which has their spellings as another array; it is the
same whenever the template is evaluated. -/
def templateObject (t : Template) : Eval ObjectId := do
  let id := (← context).realm
  -- One object for each place in the source and each realm.
  match (← realm).templates.find? (·.1 == t.span.start) with
  | some (_, o) => return o
  | none =>
    let pieces := t.quasis.map fun q => ((q.value.map Value.text).getD .undefined)
    let o ← allocateArray (.ofList pieces)
    let raw ← allocateArray (.ofList (t.quasis.map fun q => .ofString q.raw))
    modifyObject raw (·.freeze)
    modifyObject o fun p =>
      { p with properties := p.properties.push (.hidden "raw" (.object raw)) }.freeze
    modify fun a =>
      { a with
        realms := a.realms.modify id.index fun r =>
          { r with templates := (t.span.start, o) :: r.templates } }
    return o

/-- The function that a value is, or an error that quotes the source. -/
def requireFunction (v : Value) (place : Span) : Eval ObjectId := do
  match (← get).function? v with
  | some id => return id
  | none => raise .typeError ((← sourceText place) ++ " is not a function")

end Eval

open Eval

namespace Machine

/-! ### Lists -/

/-- The values of arguments. -/
def arguments (m : Machine) : List Argument → Eval (List Value)
  | [] => return []
  | .item e :: rest => do
    let v ← m.expression e
    return v :: (← m.arguments rest)
  | .spread e :: rest => do
    let vs ← itemsOf (← m.expression e)
    return vs ++ (← m.arguments rest)

/-- The places of an array literal. -/
def elements (m : Machine) : List Element → Eval (List (Option Value))
  | [] => return []
  | .hole :: rest => do return none :: (← m.elements rest)
  | .item e :: rest => do
    let v ← m.expression e
    return some v :: (← m.elements rest)
  | .spread e :: rest => do
    let vs ← itemsOf (← m.expression e)
    return vs.map some ++ (← m.elements rest)

/-- Gives the properties of an object literal to the object. -/
def properties (m : Machine) (o : ObjectId) : List Property → Eval Unit
  | [] => return
  | .data name value :: rest => do
    let k ← m.nameKey name
    defineOn o k (← m.named value k.functionName)
    m.properties o rest
  | .shorthand s name _ :: rest => do
    defineOn o name (← m.expression (.identifier s name))
    m.properties o rest
  | .accessor _ _ :: _ => raise .syntaxError "Unsupported object getter/setter"
  | .spread e :: rest => do
    copyProperties o (← m.expression e) []
    m.properties o rest

/-- The text of a template. -/
def templateText (m : Machine) : List Quasi → List Expr → Text → Eval Text
  | q :: quasis, e :: rest, t => do
    let u ← m.toText (← m.expression e)
    m.templateText quasis rest (t ++ q.text ++ u)
  | q :: quasis, [], t => m.templateText quasis [] (t ++ q.text)
  | [], _, t => return t

/-- The value of the last of several expressions. -/
def sequence (m : Machine) : List Expr → Value → Eval Value
  | [], v => return v
  | e :: rest, _ => do m.sequence rest (← m.expression e)

/-! ### Operators -/

/-- The sum of two numbers, or the concatenation of two texts. -/
def add (m : Machine) (v w : Value) : Eval Value := do
  let p ← m.toPrimitive v .number
  let q ← m.toPrimitive w .number
  if p.isText || q.isText then
    let s ← textOf p
    return .text (s ++ (← textOf q))
  else
    let x ← numberOf p
    return .number (x + (← numberOf q))

/-- An operation on two numbers. -/
def arithmetic (m : Machine) (f : Float → Float → Float) (v w : Value) : Eval Value := do
  let x ← m.toNumber v
  return .number (f x (← m.toNumber w))

/-- The value of an operator with two operands. -/
def binary (m : Machine) (op : BinaryOp) (v w : Value) : Eval Value := do
  match op with
  | .equal => return .boolean (← m.isLoosely v w)
  | .notEqual => return .boolean !(← m.isLoosely v w)
  | .strictEqual => return .boolean (v.isStrictly w)
  | .strictNotEqual => return .boolean !(v.isStrictly w)
  | .less => return .boolean ((← m.isLess? v w) == some true)
  | .greater => return .boolean ((← m.isGreater? v w) == some true)
  -- Not greater, provided that the two can be compared at all.
  | .lessEqual => return .boolean ((← m.isGreater? v w) == some false)
  | .greaterEqual => return .boolean ((← m.isLess? v w) == some false)
  | .add => m.add v w
  | .subtract => m.arithmetic (· - ·) v w
  | .multiply => m.arithmetic (· * ·) v w
  | .divide => m.arithmetic (· / ·) v w
  | .remainder => m.arithmetic Double.remainder v w
  | .power => m.arithmetic Double.power v w
  | _ => raise .syntaxError ("Unsupported binary operator `" ++ op.symbol ++ "`")

/-- The value of an operator with one operand. -/
def unary (m : Machine) (op : UnaryOp) (e : Expr) : Eval Value := do
  match op with
  | .delete =>
    match ← m.referenceOf? e with
    | some r => return .boolean (← deleteReference r)
    -- What is no reference is evaluated, and there is nothing to delete.
    | none =>
      let _ ← m.expression e
      return .boolean true
  | .typeof =>
    match ← m.referenceOf? e with
    -- An unknown name is of type `undefined` and is not read.
    | some (.unresolvable _) => return .ofString "undefined"
    | some r =>
      let v ← readReference r
      return .ofString ((← get).typeName v)
    | none =>
      let v ← m.expression e
      return .ofString ((← get).typeName v)
  | .void =>
    let _ ← m.expression e
    return .undefined
  | .not => return .boolean !(← m.expression e).isTrue
  | .negate => return .number (-(← m.toNumber (← m.expression e)))
  | .plus => return .number (← m.toNumber (← m.expression e))
  | .complement => raise .syntaxError ("Unsupported unary operator `" ++ op.symbol ++ "`")

/-- The value of a pipeline: the right operand called with the left one. -/
def pipeline (m : Machine) (left right : Expr) : Eval Value := do
  let v ← m.expression left
  let f ← requireFunction (← m.expression right) right.span
  m.call f .undefined [v]

/-- The value of a logical operator. -/
def logical (m : Machine) (op : LogicalOp) (left right : Expr) : Eval Value := do
  if op == .or && (← realm).source.hasPipeline left.span.stop right.span.start then
    m.pipeline left right
  else
    let v ← m.expression left
    if op.isDecidedBy v then return v else m.expression right

/-- The value of stepping by one. -/
def update (m : Machine) (op : UpdateOp) (before : Bool) (t : Target) : Eval Value := do
  match ← m.targetReference? t with
  | none => return .undefined
  | some r =>
    let x ← m.toNumber (← readReference r)
    let y := match op with
      | .increment => x + 1
      | .decrement => x - 1
    m.writeReference r (.number y)
    return .number (if before then y else x)

/-- Assigns a value and returns it. -/
def assigning (m : Machine) (r : Reference) (v : Value) : Eval Value := do
  m.writeReference r v
  return v

/-- The value of an assignment. -/
def assignment (m : Machine) (op : AssignOp) (t : Target) (e : Expr) : Eval Value := do
  if !op.isSupported then
    raise .syntaxError ("Unsupported assignment operator `" ++ op.symbol ++ "`")
  -- A pattern has no reference: the value comes first and is taken apart afterwards.
  else if t.isPattern then
    let v ← m.expression e
    m.run (.assign t v)
    return v
  else
    match ← m.targetReference? t with
    | none => return .undefined
    | some r =>
      match op with
      | .plain => m.assigning r (← m.namedBy e t.name?)
      | .logical op =>
        let old ← readReference r
        -- The value is not evaluated where the old one decides.
        if op.isDecidedBy old then return old else m.assigning r (← m.namedBy e t.name?)
      | .binary op =>
        let old ← readReference r
        let v ← m.expression e
        m.assigning r (← m.binary op old v)

/-! ### Calls and chains -/

/-- The value of a call of a value, which the source has at the given place. -/
def invocation (m : Machine) (f this : Value) (args : List Argument) (place : Span) :
    Eval Value := do
  let vs ← m.arguments args
  m.call (← requireFunction f place) this vs

/-- The object that a function makes with `new`. -/
def construct (m : Machine) (id : ObjectId) (args : List Value) : Eval Value := do
  match (← object id).kind with
  | .builtin (.constructor c) => m.make c true args
  | _ =>
    match ← m.call id .undefined args with
    | .object o => return .object o
    | _ => return .object (← emptyObject)

/-- The value of `new`. -/
def construction (m : Machine) (callee : Expr) (args : List Argument) : Eval Value := do
  let f ← m.expression callee
  let vs ← m.arguments args
  match (← get).constructor? f with
  | some id => m.construct id vs
  | none => raise .typeError ((← sourceText callee.span) ++ " is not a constructor")

/-- The value of a tagged template. -/
def taggedTemplate (m : Machine) (tag : Expr) (t : Template) : Eval Value := do
  let (f, this) ← m.callee tag
  let o ← templateObject t
  let vs ← m.expressions t.expressions
  m.call (← requireFunction f tag.span) this (.object o :: vs)

/-- The value of a part of a chain and the object that it was read from; nothing if the chain ends
early. -/
def evaluateLink (m : Machine) (e : Expr) : Eval (Option (Value × Value)) := do
  match e with
  | .call s callee args isOptional =>
    record (.evaluate "CallExpression" s)
    -- An early end in front skips everything behind it.
    match ← m.run (.link callee) with
    | none => return none
    | some (f, this) =>
      if isOptional && f.isNullish then return none
      else return some (← m.invocation f this args callee.span, .undefined)
  | .member s object name isOptional =>
    record (.evaluate "StaticMemberExpression" s)
    match ← m.run (.link object) with
    | none => return none
    | some (base, _) =>
      if isOptional && base.isNullish then return none
      else return some (← getOf base name, base)
  | .index s object key isOptional =>
    record (.evaluate "ComputedMemberExpression" s)
    match ← m.run (.link object) with
    | none => return none
    | some (base, _) =>
      if isOptional && base.isNullish then return none
      else
        let k ← m.toKey (← m.expression key)
        return some (← getOf base k, base)
  -- Only this wrapper stays inside a chain; parentheses end it.
  | .wrapped _ .nonNull content => m.run (.link content)
  | e => return some (← m.expression e, .undefined)

/-- The value of a chain. -/
def chain (m : Machine) (link : Expr) : Eval Value := do
  match link with
  | .privateMember s _ _ _ => unsupported "PrivateFieldExpression" s
  | _ =>
    match ← m.run (.link link) with
    | some (v, _) => return v
    | none => return .undefined

/-! ### Expressions -/

/-- The value of an expression without wrappers that has a meaning. -/
def value (m : Machine) (e : Expr) : Eval Value := do
  match e with
  | .constant _ c => return c.value
  | .identifier s name => do readReference (← m.name s name)
  | .template t => return .text (← m.templateText t.quasis t.expressions .empty)
  | .tagged _ tag t => m.taggedTemplate tag t
  | .array _ es =>
    return .object (← allocateArray (.ofPlaces (← m.elements es).toArray))
  | .object _ ps =>
    let o ← emptyObject
    m.properties o ps
    return .object o
  | .function f => functionValue f
  | .unary _ op operand => m.unary op operand
  | .update _ op before t => m.update op before t
  | .binary _ op left right =>
    -- An unsupported operator is refused before its operands run.
    if op.isSupported then
      let v ← m.expression left
      let w ← m.expression right
      m.binary op v w
    else raise .syntaxError ("Unsupported binary operator `" ++ op.symbol ++ "`")
  | .logical _ op left right => m.logical op left right
  | .conditional _ test consequent alternate =>
    if (← m.expression test).isTrue then m.expression consequent else m.expression alternate
  | .assign _ op t e => m.assignment op t e
  | .sequence _ items => m.sequence items .undefined
  | .call _ callee args _ =>
    let (f, this) ← m.callee callee
    m.invocation f this args callee.span
  | .construct _ callee args => m.construction callee args
  | .member _ object name _ => getOf (← m.expression object) name
  | .index _ object key _ =>
    let base ← m.expression object
    getOf base (← m.toKey (← m.expression key))
  | .chain _ link => m.chain link
  | .privateMember _ _ _ _ | .wrapped _ _ _ | .foreign _ _ => unsupported e.kind e.span

/-- The value of an expression. -/
def evaluateExpression (m : Machine) (e : Expr) : Eval Value := do
  let e := e.inner
  record (.evaluate e.node e.span)
  if e.isUnsupported (← realm).rules then unsupported e.kind e.span else m.value e

end Machine

end Scriptlet
