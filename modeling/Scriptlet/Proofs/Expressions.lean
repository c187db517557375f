import Scriptlet.Proofs.Functions

/-!
# Related expressions

Evaluating an admitted expression is related on both sides, one lemma for each form of expression,
in terms of agreeing machines for the parts.

## Main results

* `Machine.Agree.arguments`, `Machine.Agree.elements`, `Machine.Agree.properties` — lists of
  expressions.
* `Machine.Agree.unary`, `Machine.Agree.binary`, `Machine.Agree.logical`,
  `Machine.Agree.assignment` — operators.
* `Machine.Agree.invocation`, `Machine.Agree.construction` — calls.
* `Machine.Agree.evaluateLink` — parts of chains.
* `Machine.Agree.evaluateExpression` — **evaluating an admitted expression is related**.
-/

namespace Scriptlet

open Eval

variable {φ : RealmId → Filing} {m m' : Machine} {ρ : World} {c : Context × Context} {K : Stack φ}
  {S : List Scope}
  {v w v' w' : Value} {vs ws : List Value}

/-- Constants belong to no world. -/
theorem Value.Rel.constant (k : Constant) : ρ.value k.value k.value := by
  cases k with
  | null => exact .null
  | boolean b => exact .boolean b
  | number x => exact .number x
  | string t => exact .text t

/-- Whether the left side decides is the same for corresponding values. -/
theorem LogicalOp.isDecidedBy_rel (op : LogicalOp) (hv : ρ.value v w) :
    op.isDecidedBy v = op.isDecidedBy w := by
  cases op with
  | coalesce => exact congrArg not hv.isNullish
  | and => exact congrArg not hv.isTrue
  | or => exact hv.isTrue

/-- Which expressions have no meaning depends on one of the rules only. -/
theorem Expr.isUnsupported_congr (e : Expr) {r r' : Rules}
    (h : r.expressionOnly = r'.expressionOnly) : e.isUnsupported r = e.isUnsupported r' := by
  cases e with
  | assign | update => exact h
  | function f => exact congrArg (· && f.form != .arrow) h
  | _ => rfl

theorem Realm.Rel.isExpressionOnly {r : RealmId} {x y : Realm} (h : Realm.Rel ρ r x y) :
    x.isExpressionOnly = y.isExpressionOnly := by
  unfold Realm.isExpressionOnly
  rw [h.root]

/-- The function that a value is, or an error that quotes the source. -/
theorem Related.requireFunction (hv : ρ.value v w) (place : Span) :
    Related ρ (K.push c) (Eval.requireFunction v place) (Eval.requireFunction w place)
      fun σ o p => σ.callable o p := by
  refine noting fun a b hab => ?_
  obtain ⟨σ, ext, hagree, hf⟩ := hab.function? hv
  refine ⟨σ, ext, hagree, ?_⟩
  obtain ⟨ha, hb⟩ | ⟨o, p, ha, hb, ho⟩ := Option.rel_cases hf
  · rw [ha, hb]
    refine (sourceText place).bindEq fun _ => ?_
    exact raise _ _
  · rw [ha, hb]
    exact pure ho

namespace Machine.Agree

/-! ### Lists -/

/-- Arguments are evaluated from left to right, each in the world that the one before has led to. -/
theorem arguments (h : m.Agree φ m') {as : List Argument}
    (has : ρ.Admits c S (argumentNotes · as)) :
    Related ρ (K.push c) (m.arguments as) (m'.arguments as) fun σ vs ws => σ.values vs ws := by
  induction as generalizing ρ with
  | nil => exact .pure .nil
  | cons a as ih =>
    cases a with
    | item e =>
      refine (h.expression (e := e) has.left).bind fun hle hv => ?_
      exact (ih (has.right.mono hle)).bind fun hle' hvs => .pure (.cons (hv.mono hle') hvs)
    | spread e =>
      refine (h.expression (e := e) has.left).bind fun hle hv => ?_
      refine (Related.itemsOf hv).bind fun hle₁ hvs => ?_
      have hle := World.le_trans hle hle₁
      exact (ih (has.right.mono hle)).bind fun hle' hws =>
        .pure (List.rel_append (World.values.mono hle' hvs) hws)

/-- Elements are evaluated likewise; holes are nothing on both sides. -/
theorem elements (h : m.Agree φ m') {es : List Element}
    (hes : ρ.Admits c S (Scriptlet.elementNotes · es)) :
    Related ρ (K.push c) (m.elements es) (m'.elements es)
      fun σ vs ws => List.Forall₂ σ.value? vs ws := by
  have hmono : ∀ {σ τ : World} {l l' : List (Option Value)}, σ ≤ τ →
      List.Forall₂ σ.value? l l' → List.Forall₂ τ.value? l l' :=
    fun hle hl => hl.imp fun _ _ => World.value?.mono hle
  induction es generalizing ρ with
  | nil => exact .pure .nil
  | cons e es ih =>
    cases e with
    | hole => exact (ih hes).bind fun _ hvs => .pure (.cons .none hvs)
    | item e =>
      refine (h.expression (e := e) hes.left).bind fun hle hv => ?_
      exact (ih (hes.right.mono hle)).bind fun hle' hvs => .pure (.cons (.some (hv.mono hle')) hvs)
    | spread e =>
      refine (h.expression (e := e) hes.left).bind fun hle hv => ?_
      refine (Related.itemsOf hv).bind fun hle₁ hvs => ?_
      have hle := World.le_trans hle hle₁
      refine (ih (hes.right.mono hle)).bind fun hle' hws => .pure (List.rel_append ?_ hws)
      exact List.forall₂_map_left_iff.mpr
        (List.forall₂_map_right_iff.mpr ((World.values.mono hle' hvs).imp fun _ _ => .some))

/-- Properties are put on corresponding new objects. -/
theorem properties (h : m.Agree φ m') {o p : ObjectId} (hop : ρ.object o p) {ps : List Property}
    (hps : ρ.Admits c S (Scriptlet.propertyNotes · ps)) :
    Related ρ (K.push c) (m.properties o ps) (m'.properties p ps) fun _ _ _ => True := by
  -- Every property may run code, so the properties that follow are in a larger world.
  induction ps generalizing ρ with
  | nil => exact .pure trivial
  | cons q ps ih =>
    cases q with
    | data name value =>
      have hdata := hps.left
      refine (h.nameKey hdata.left).bind fun {_ k _} hle hk => ?_
      subst hk
      refine (h.named (e := value) (hdata.right.mono hle) _).bind fun hle₁ hv => ?_
      have hle := World.le_trans hle hle₁
      refine (Related.defineOn (hle.object hop) k hv).bind fun hle₂ _ => ?_
      have hle := World.le_trans hle hle₂
      exact ih (hle.object hop) (hps.right.mono hle)
    | shorthand s name isAnonymous =>
      refine (h.expression (e := .identifier s name) hps.head).bind fun hle hv => ?_
      refine (Related.defineOn (hle.object hop) _ hv).bind fun hle₁ _ => ?_
      have hle := World.le_trans hle hle₁
      exact ih (hle.object hop) (hps.tail.mono hle)
    | accessor s kind => exact .raise _ _
    | spread e =>
      refine (h.expression (e := e) hps.left).bind fun hle hv => ?_
      refine (Related.copyProperties (hle.object hop) hv []).bind fun hle₁ _ => ?_
      have hle := World.le_trans hle hle₁
      exact ih (hle.object hop) (hps.right.mono hle)

/-- The text that has been put together is the same so far. -/
theorem templateText (h : m.Agree φ m') {es : List Expr} (hes : ρ.Admits c S (expressionNotes · es))
    (qs : List Quasi) (t : Text) :
    Related ρ (K.push c) (m.templateText qs es t) (m'.templateText qs es t)
      fun _ s t => s = t := by
  induction qs generalizing ρ es t with
  | nil => exact .pure rfl
  | cons q qs ih =>
    cases es with
    | nil => exact ih hes _
    | cons e es =>
      refine (h.expression hes.left).bind fun hle hv => ?_
      refine (h.toText hv).bind fun hle₁ ht => ?_
      subst ht
      exact ih (hes.right.mono (World.le_trans hle hle₁)) _

/-- All but the last expression are evaluated for what they do. -/
theorem sequence (h : m.Agree φ m') {es : List Expr} (hes : ρ.Admits c S (expressionNotes · es))
    (hv : ρ.value v w) :
    Related ρ (K.push c) (m.sequence es v) (m'.sequence es w) fun σ v w => σ.value v w := by
  induction es generalizing ρ v w with
  | nil => exact .pure hv
  | cons e es ih =>
    exact (h.expression hes.left).bind fun hle hv => ih (hes.right.mono hle) hv

/-! ### Operators -/

/-- Both sides are texts or numbers once they are converted. -/
theorem add (h : m.Agree φ m') (hv : ρ.value v w) (hv' : ρ.value v' w') :
    Related ρ K (m.add v v') (m'.add w w') fun σ v w => σ.value v w := by
  refine (h.toPrimitive hv .number).bind fun hle hp => ?_
  refine (h.toPrimitive (hv'.mono hle) .number).bind fun hle₁ hq => ?_
  have hp := hp.mono hle₁
  rw [hp.isText, hq.isText]
  split
  · refine (Related.textOf hp).bindEq fun hle₂ => ?_
    exact (Related.textOf (hq.mono hle₂)).bindEq fun _ => .pure (.text _)
  · refine (Related.numberOf hp).bindEq fun hle₂ => ?_
    exact (Related.numberOf (hq.mono hle₂)).bindEq fun _ => .pure (.number _)

theorem arithmetic (h : m.Agree φ m') (f : Float → Float → Float) (hv : ρ.value v w)
    (hv' : ρ.value v' w') :
    Related ρ K (m.arithmetic f v v') (m'.arithmetic f w w') fun σ v w => σ.value v w := by
  refine (h.toNumber hv).bindEq fun hle => ?_
  exact (h.toNumber (hv'.mono hle)).bindEq fun _ => .pure (.number _)

/-- **Operators with two operands have corresponding values on corresponding operands.** -/
theorem binary (h : m.Agree φ m') (op : BinaryOp) (hv : ρ.value v w) (hv' : ρ.value v' w') :
    Related ρ K (m.binary op v v') (m'.binary op w w') fun σ v w => σ.value v w := by
  cases op with
  | equal => exact (h.isLoosely hv hv').bindEq fun _ => .pure (.boolean _)
  | notEqual => exact (h.isLoosely hv hv').bindEq fun _ => .pure (.boolean _)
  | strictEqual =>
    refine .pure ?_
    rw [hv.isStrictly hv']
    exact .boolean _
  | strictNotEqual =>
    refine .pure ?_
    rw [hv.isStrictly hv']
    exact .boolean _
  | less => exact (h.isLess? hv hv').bindEq fun _ => .pure (.boolean _)
  | greater => exact (h.isGreater? hv hv').bindEq fun _ => .pure (.boolean _)
  | lessEqual => exact (h.isGreater? hv hv').bindEq fun _ => .pure (.boolean _)
  | greaterEqual => exact (h.isLess? hv hv').bindEq fun _ => .pure (.boolean _)
  | add => exact h.add hv hv'
  | subtract => exact h.arithmetic _ hv hv'
  | multiply => exact h.arithmetic _ hv hv'
  | divide => exact h.arithmetic _ hv hv'
  | remainder => exact h.arithmetic _ hv hv'
  | power => exact h.arithmetic _ hv hv'
  | _ => exact .raise _ _

/-- **Operators with one operand have corresponding values.** -/
theorem unary (h : m.Agree φ m') (op : UnaryOp) {e : Expr} (he : ρ.Admits c S (Expr.notes · e)) :
    Related ρ (K.push c) (m.unary op e) (m'.unary op e) fun σ v w => σ.value v w := by
  have htypeName : ∀ {σ : World} {v w : Value}, σ.value v w →
      Related σ (K.push c) (do return .ofString ((← get).typeName v))
        (do return .ofString ((← get).typeName w)) fun τ v w => τ.value v w := by
    intro σ v w hv
    refine .get fun a b hab => .pure ?_
    rw [hab.typeName hv]
    exact .ofString _
  cases op with
  | delete =>
    refine (h.referenceOf? he).bind fun hle hr => ?_
    cases hr with
    | none => exact (h.expression (he.mono hle)).bind fun _ _ => .pure (.boolean _)
    | some hr => exact (Related.deleteReference hr).bindEq fun _ => .pure (.boolean _)
  | typeof =>
    refine (h.referenceOf? he).bind fun hle hr => ?_
    cases hr with
    | none => exact (h.expression (he.mono hle)).bind fun _ hv => htypeName hv
    -- A name that nothing declares has a type without being read.
    | some hr =>
      have hread := Related.readReference (K := K.push c) hr
      cases hr with
      | unresolvable name => exact .pure (.ofString _)
      | _ => exact hread.bind fun _ hv => htypeName hv
  | void => exact (h.expression he).bind fun _ _ => .pure .undefined
  | not =>
    refine (h.expression he).bind fun _ hv => .pure ?_
    rw [hv.isTrue]
    exact .boolean _
  | negate =>
    exact (h.expression he).bind fun _ hv => (h.toNumber hv).bindEq fun _ => .pure (.number _)
  | plus =>
    exact (h.expression he).bind fun _ hv => (h.toNumber hv).bindEq fun _ => .pure (.number _)
  | complement => exact .raise _ _

/-- The left side is evaluated first, then the function. -/
theorem pipeline (h : m.Agree φ m') {left right : Expr}
    (he : ρ.Admits c S fun s => left.notes s ++ right.notes s) :
    Related ρ (K.push c) (m.pipeline left right) (m'.pipeline left right)
      fun σ v w => σ.value v w := by
  refine (h.expression he.left).bind fun hle hv => ?_
  refine (h.expression (he.right.mono hle)).bind fun hle₁ hf => ?_
  refine (Related.requireFunction hf _).bind fun hle₂ ho => ?_
  exact h.call ho .undefined (.cons (hv.mono (World.le_trans hle₁ hle₂)) .nil)

/-- The right side is evaluated on both sides or on neither. -/
theorem logical (h : m.Agree φ m') (op : LogicalOp) {left right : Expr}
    (he : ρ.Admits c S fun s => left.notes s ++ right.notes s) :
    Related ρ (K.push c) (m.logical op left right) (m'.logical op left right)
      fun σ v w => σ.value v w := by
  refine Related.realm.bind fun hle hr => ?_
  rw [hr.source]
  have he := he.mono hle
  split
  · exact h.pipeline he
  · refine (h.expression he.left).bind fun hle₁ hv => ?_
    rw [op.isDecidedBy_rel hv]
    split
    · exact .pure hv
    · exact h.expression (he.right.mono hle₁)

/-- What has been assigned is the value of the assignment. -/
theorem assigning (h : m.Agree φ m') {r s : Reference} (hr : Reference.Rel ρ r s)
    (hv : ρ.value v w) :
    Related ρ K (m.assigning r v) (m'.assigning s w) fun σ v w => σ.value v w :=
  (h.writeReference hr hv).bind fun hle _ => .pure (hv.mono hle)

/-- The same number is read, and the next one written. -/
theorem update (h : m.Agree φ m') (op : UpdateOp) (before : Bool) {t : Target}
    (ht : ρ.Admits c S (Target.notes · t)) :
    Related ρ (K.push c) (m.update op before t) (m'.update op before t)
      fun σ v w => σ.value v w := by
  refine (h.targetReference? ht).bind fun hle hr => ?_
  cases hr with
  | none => exact .pure .undefined
  | some hr =>
    refine (Related.readReference hr).bind fun hle₁ hv => ?_
    refine (h.toNumber hv).bindEq fun hle₂ => ?_
    exact (h.writeReference (hr.mono (World.le_trans hle₁ hle₂)) (.number _)).bind fun _ _ =>
      .pure (.number _)

/-- **Assignments have corresponding values.** -/
theorem assignment (h : m.Agree φ m') (op : AssignOp) {t : Target} {e : Expr}
    (he : ρ.Admits c S fun s => t.notes s ++ e.notes s) :
    Related ρ (K.push c) (m.assignment op t e) (m'.assignment op t e)
      fun σ v w => σ.value v w := by
  unfold Machine.assignment
  split
  · exact .raise _ _
  -- An assignment to a pattern has no reference: it is carried out by a task of its own.
  split
  · refine (h.expression he.right).bind fun hle hv => ?_
    exact (h.run (.assign (he.left.mono hle) hv)).bind fun hle₁ _ => .pure (hv.mono hle₁)
  refine (h.targetReference? he.left).bind fun hle hr => ?_
  cases hr with
  | none => exact .pure .undefined
  | some hr =>
    have hvalue := he.right.mono hle
    cases op with
    | plain =>
      exact (h.namedBy hvalue _).bind fun hle₁ hv => h.assigning (hr.mono hle₁) hv
    | logical op =>
      refine (Related.readReference hr).bind fun hle₁ hold => ?_
      rw [op.isDecidedBy_rel hold]
      split
      · exact .pure hold
      · exact (h.namedBy (hvalue.mono hle₁) _).bind fun hle₂ hv =>
          h.assigning (hr.mono (World.le_trans hle₁ hle₂)) hv
    | binary op =>
      refine (Related.readReference hr).bind fun hle₁ hold => ?_
      refine (h.expression (hvalue.mono hle₁)).bind fun hle₂ hv => ?_
      refine (h.binary op (hold.mono hle₂) hv).bind fun hle₃ hx => ?_
      exact h.assigning (hr.mono (World.le_trans hle₁ (World.le_trans hle₂ hle₃))) hx

/-! ### Calls and chains -/

/-- The arguments are evaluated before it turns out that there is nothing to call. -/
theorem invocation (h : m.Agree φ m') (hf : ρ.value v w) (hthis : ρ.value v' w')
    {as : List Argument} (has : ρ.Admits c S (argumentNotes · as)) (place : Span) :
    Related ρ (K.push c) (m.invocation v v' as place) (m'.invocation w w' as place)
      fun σ v w => σ.value v w := by
  refine (h.arguments has).bind fun hle hvs => ?_
  refine (Related.requireFunction (hf.mono hle) place).bind fun hle₁ ho => ?_
  exact h.call ho (hthis.mono (World.le_trans hle hle₁)) (World.values.mono hle₁ hvs)

/-- What a function that is called with `new` returns is used if it is an object. -/
theorem callNew (h : m.Agree φ m') {o p : ObjectId} (hop : ρ.callable o p) (hvs : ρ.values vs ws) :
    Related ρ K
      (do
        match ← m.call o .undefined vs with
        | .object o => return .object o
        | _ => return .object (← emptyObject))
      (do
        match ← m'.call p .undefined ws with
        | .object o => return .object o
        | _ => return .object (← emptyObject)) fun σ v w => σ.value v w := by
  refine (h.call hop .undefined hvs).bind fun hle hv => ?_
  cases hv with
  | object ho => exact .pure (.object ho)
  | _ => exact Related.emptyObject.bind fun _ ho => .pure (.object ho)

/-- A closure that returns no object is replaced by a new one. -/
theorem construct (h : m.Agree φ m') {o p : ObjectId} (hop : ρ.callable o p)
    (hvs : ρ.values vs ws) :
    Related ρ K (m.construct o vs) (m'.construct p ws) fun σ v w => σ.value v w := by
  refine (Related.object hop.1).bind fun {_ x y} hle hxy => ?_
  obtain ⟨kind, isExtensible, properties⟩ := x
  obtain ⟨kind', isExtensible', properties'⟩ := y
  have hkind : ObjectKind.Rel _ kind kind' := hxy.kind
  cases hkind with
  | builtin b =>
    cases b with
    | constructor k => exact h.make k true (World.values.mono hle hvs)
    | _ => exact h.callNew (hop.mono hle) (World.values.mono hle hvs)
  | _ => exact h.callNew (hop.mono hle) (World.values.mono hle hvs)

/-- Something is a constructor on both sides or on neither. -/
theorem construction (h : m.Agree φ m') {e : Expr} {as : List Argument}
    (he : ρ.Admits c S fun s => e.notes s ++ argumentNotes s as) :
    Related ρ (K.push c) (m.construction e as) (m'.construction e as)
      fun σ v w => σ.value v w := by
  refine (h.expression he.left).bind fun hle hf => ?_
  refine (h.arguments (he.right.mono hle)).bind fun hle₁ hvs => ?_
  refine .noting fun a b hab => ?_
  obtain ⟨σ, ext, hagree, ho⟩ := hab.constructor? (hf.mono hle₁)
  refine ⟨σ, ext, hagree, ?_⟩
  obtain ⟨ha, hb⟩ | ⟨o, p, ha, hb, ho⟩ := Option.rel_cases ho
  · rw [ha, hb]
    refine (Related.sourceText _).bindEq fun _ => ?_
    exact .raise _ _
  · rw [ha, hb]
    exact h.construct ho (World.values.mono ext.le hvs)

/-- The arrays for corresponding templates correspond. -/
theorem taggedTemplate (h : m.Agree φ m') {e : Expr} {t : Template}
    (he : ρ.Admits c S fun s => e.notes s ++ templateNotes s t) :
    Related ρ (K.push c) (m.taggedTemplate e t) (m'.taggedTemplate e t)
      fun σ v w => σ.value v w := by
  have ht : ρ.Admits c S (expressionNotes · t.expressions) := by
    obtain ⟨span, quasis, expressions⟩ := t
    exact he.right
  refine (h.callee he.left).bind fun hle hf => ?_
  refine (Related.templateObject t).bind fun hle₁ ho => ?_
  have hle := World.le_trans hle hle₁
  refine (h.expressions (ht.mono hle)).bind fun hle₂ hvs => ?_
  refine (Related.requireFunction (hf.1.mono (World.le_trans hle₁ hle₂)) _).bind fun hle₃ hp => ?_
  have hle₃' := World.le_trans hle₂ hle₃
  exact h.call hp (hf.2.mono (World.le_trans hle₁ hle₃'))
    (.cons (.object (hle₃'.object ho)) (World.values.mono hle₃ hvs))

/-- **Parts of chains have corresponding values, or the chains end early on both sides.** -/
theorem evaluateLink (h : m.Agree φ m') {e : Expr} (he : ρ.Admits c S (Expr.notes · e)) :
    Related ρ (K.push c) (m.evaluateLink e) (m'.evaluateLink e)
      fun σ x y => Option.Rel σ.values₂ x y := by
  have hplain : ∀ {e : Expr}, ρ.Admits c S (Expr.notes · e) →
      Related ρ (K.push c) (do return some (← m.expression e, .undefined))
        (do return some (← m'.expression e, .undefined))
        fun σ x y => Option.Rel σ.values₂ x y :=
    fun he => (h.expression he).bind fun _ hv => .pure (.some ⟨hv, .undefined⟩)
  -- A link that ended early ends what hangs on it; otherwise the rest is read from what the link
  -- gave.
  cases e with
  | call s callee args isOptional =>
    refine (Related.record _).bind fun hle _ => ?_
    refine (h.run (.link (he.left.mono hle))).bind fun {σ x y} hle₁ hxy => ?_
    have hle := World.le_trans hle hle₁
    change Option.Rel σ.values₂ x y at hxy
    cases hxy with
    | none => exact .pure .none
    | @some p q hpq =>
      obtain ⟨f, this⟩ := p
      obtain ⟨g, this'⟩ := q
      dsimp only
      rw [hpq.1.isNullish]
      split
      · exact .pure .none
      · exact (h.invocation hpq.1 hpq.2 (he.right.mono hle) _).bind fun _ hv =>
          .pure (.some ⟨hv, .undefined⟩)
  | member s object name isOptional =>
    refine (Related.record _).bind fun hle _ => ?_
    refine (h.run (.link (e := object) (he.mono hle))).bind fun {σ x y} hle₁ hxy => ?_
    change Option.Rel σ.values₂ x y at hxy
    cases hxy with
    | none => exact .pure .none
    | @some p q hpq =>
      obtain ⟨f, this⟩ := p
      obtain ⟨g, this'⟩ := q
      dsimp only
      rw [hpq.1.isNullish]
      split
      · exact .pure .none
      · exact (Related.getOf hpq.1 _).bind fun hle₂ hv => .pure (.some ⟨hv, hpq.1.mono hle₂⟩)
  | index s object key isOptional =>
    refine (Related.record _).bind fun hle _ => ?_
    refine (h.run (.link (he.left.mono hle))).bind fun {σ x y} hle₁ hxy => ?_
    have hle := World.le_trans hle hle₁
    change Option.Rel σ.values₂ x y at hxy
    cases hxy with
    | none => exact .pure .none
    | @some p q hpq =>
      obtain ⟨f, this⟩ := p
      obtain ⟨g, this'⟩ := q
      dsimp only
      rw [hpq.1.isNullish]
      split
      · exact .pure .none
      · refine (h.expression (he.right.mono hle)).bind fun hle₂ hk => ?_
        refine (h.toKey hk).bindEq fun hle₃ => ?_
        have hbase := hpq.1.mono (World.le_trans hle₂ hle₃)
        exact (Related.getOf hbase _).bind fun hle₄ hv => .pure (.some ⟨hv, hbase.mono hle₄⟩)
  | wrapped s form content =>
    cases form with
    | nonNull => exact h.run (.link (e := content) he)
    | _ => exact hplain he
  | _ => exact hplain he

/-- A chain that is cut short has no value. -/
theorem linkValue (h : m.Agree φ m') {e : Expr} (he : ρ.Admits c S (Expr.notes · e)) :
    Related ρ (K.push c)
      (do
        match ← m.run (.link e) with
        | some (v, _) => return v
        | none => return .undefined)
      (do
        match ← m'.run (.link e) with
        | some (v, _) => return v
        | none => return .undefined) fun σ v w => σ.value v w := by
  refine (h.run (.link he)).bind fun {σ x y} _ hxy => ?_
  change Option.Rel σ.values₂ x y at hxy
  cases hxy with
  | none => exact .pure .undefined
  | some hpq => exact .pure hpq.1

/-- A chain that has ended has the same value on both sides. -/
theorem chain (h : m.Agree φ m') {s : Span} {e : Expr}
    (he : ρ.Admits c S (Expr.notes · (.chain s e))) :
    Related ρ (K.push c) (m.chain e) (m'.chain e) fun σ v w => σ.value v w := by
  cases e with
  | privateMember s object field isOptional => exact .unsupported _ _
  | _ => exact h.linkValue he

/-! ### Expressions -/

/-- **Expressions without wrappers that have a meaning have corresponding values.** -/
theorem value (h : m.Agree φ m') {e : Expr} (he : ρ.Admits c S (Expr.notes · e))
    (hsupported : e.isUnsupported (ρ.filing c.1.realm).rules = false) :
    Related ρ (K.push c) (m.value e) (m'.value e) fun σ v w => σ.value v w := by
  obtain ⟨hS, hn⟩ := he
  cases e with
  | constant s k => exact .pure (.constant k)
  | identifier s name => exact (h.name ⟨hS, hn⟩).bind fun _ hr => Related.readReference hr
  | template t =>
    obtain ⟨span, quasis, expressions⟩ := t
    have hes : ρ.Admits c S (expressionNotes · expressions) := ⟨hS, hn⟩
    exact (h.templateText hes _ _).bindEq fun _ => .pure (.text _)
  | tagged s tag t => exact h.taggedTemplate ⟨hS, hn⟩
  | array s es =>
    refine (h.elements ⟨hS, hn⟩).bind fun hle hvs => ?_
    exact (Related.allocateArray (.ofPlaces hvs)).bind fun _ ho => .pure (.object ho)
  | object s ps =>
    refine Related.emptyObject.bind fun hle ho => ?_
    have hps : ρ.Admits c S (Scriptlet.propertyNotes · ps) := ⟨hS, hn⟩
    exact (h.properties ho (hps.mono hle)).bind fun hle' _ => .pure (.object (hle'.object ho))
  | function f =>
    refine Related.functionValue ⟨hS, ?_⟩
    rw [Expr.isUnsupported, Bool.and_comm] at hsupported
    simp only [Expr.notes] at hn
    rwa [hsupported] at hn
  | unary s op operand => exact h.unary op ⟨hS, hn⟩
  | update s op before t =>
    refine h.update op before (t := t) ⟨hS, ?_⟩
    rw [Expr.isUnsupported] at hsupported
    simp only [Expr.notes] at hn
    rwa [hsupported] at hn
  | binary s op left right =>
    have hparts : ρ.Admits c S fun s => left.notes s ++ right.notes s := ⟨hS, hn⟩
    unfold Machine.value
    dsimp only
    split
    · refine (h.expression hparts.left).bind fun hle hv => ?_
      refine (h.expression (hparts.right.mono hle)).bind fun hle₁ hw => ?_
      exact h.binary op (hv.mono hle₁) hw
    · exact .raise _ _
  | logical s op left right => exact h.logical op ⟨hS, hn⟩
  | conditional s test consequent alternate =>
    have hparts : ρ.Admits c S fun s => test.notes s ++ consequent.notes s ++ alternate.notes s :=
      ⟨hS, hn⟩
    refine (h.expression hparts.left.left).bind fun hle hv => ?_
    rw [hv.isTrue]
    split
    · exact h.expression (hparts.left.right.mono hle)
    · exact h.expression (hparts.right.mono hle)
  | assign s op t e =>
    refine h.assignment op ⟨hS, ?_⟩
    rw [Expr.isUnsupported] at hsupported
    simp only [Expr.notes] at hn
    rwa [hsupported] at hn
  | sequence s items => exact h.sequence ⟨hS, hn⟩ .undefined
  | call s callee args isOptional =>
    have hparts : ρ.Admits c S fun s => callee.notes s ++ argumentNotes s args := ⟨hS, hn⟩
    refine (h.callee hparts.left).bind fun {_ x y} hle hf => ?_
    obtain ⟨f, this⟩ := x
    obtain ⟨g, this'⟩ := y
    exact h.invocation hf.1 hf.2 (hparts.right.mono hle) _
  | construct s callee args => exact h.construction ⟨hS, hn⟩
  | member s object name isOptional =>
    exact (h.expression (e := object) ⟨hS, hn⟩).bind fun _ hv => Related.getOf hv _
  | index s object key isOptional =>
    have hparts : ρ.Admits c S fun s => object.notes s ++ key.notes s := ⟨hS, hn⟩
    refine (h.expression hparts.left).bind fun hle hv => ?_
    refine (h.expression (hparts.right.mono hle)).bind fun hle₁ hk => ?_
    exact (h.toKey hk).bindEq fun hle₂ => Related.getOf (hv.mono (World.le_trans hle₁ hle₂)) _
  | chain s link => exact h.chain (s := s) ⟨hS, hn⟩
  | privateMember | wrapped | foreign => exact .unsupported _ _

/-- **Evaluating an admitted expression is related.** -/
theorem evaluateExpression (h : m.Agree φ m') {e : Expr} (he : ρ.Admits c S (Expr.notes · e)) :
    Related ρ (K.push c) (m.evaluateExpression e) (m'.evaluateExpression e)
      fun σ v w => σ.value v w := by
  have hinner : ρ.Admits c S (Expr.notes · e.inner) :=
    he.part fun r n hn => by rwa [Expr.notes_inner] at hn
  unfold Machine.evaluateExpression
  generalize e.inner = i at hinner
  refine (Related.record _).bind fun hle _ => ?_
  refine Related.realm.bind fun {σ x y} hle₁ hr => ?_
  have hinner := hinner.mono (World.le_trans hle hle₁)
  have hx : i.isUnsupported x.rules = i.isUnsupported (σ.filing c.1.realm).rules :=
    i.isUnsupported_congr hr.rules.symm
  have hy : i.isUnsupported y.rules = i.isUnsupported x.rules :=
    i.isUnsupported_congr hr.isExpressionOnly.symm
  rw [hy, hx]
  split
  · exact .unsupported _ _
  · rename_i hsupported
    exact h.value hinner (Bool.not_eq_true _ ▸ hsupported)

end Machine.Agree

end Scriptlet
