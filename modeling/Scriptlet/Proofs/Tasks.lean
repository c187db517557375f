import Scriptlet.Evaluation.Function
import Scriptlet.Proofs.Properties
import Scriptlet.Proofs.Scopes

/-!
# Corresponding tasks

Machines agree if they do corresponding tasks in related ways.  A task that is about a piece of
syntax corresponds to itself where the analysis has been at that syntax and the environment that is
being evaluated in represents the scopes that the analysis found around it.

## Main definitions

* `World.Admits` — a piece of syntax may be evaluated in a context.
* `Reference.Rel` — corresponding places.
* `Task.Rel`, `Task.Result` — corresponding tasks and results.
* `Machine.Agree` — agreeing machines.

## Main results

* `World.Admits.mono`, `Reference.Rel.mono`, `World.Binds.mono` — what holds of a piece of syntax, of
  a place and of names holds in later worlds.
* `Machine.Agree.expression`, `Machine.Agree.call`, `Machine.Agree.expressions` — what agreeing machines
  do with expressions and calls.
-/

namespace Scriptlet

open Eval

/-! ### Admitted syntax -/

/-- Syntax with the given notes may be evaluated in a context: the environment there represents
scopes inside which the analysis has been at the syntax. -/
structure World.Admits (ρ : World) (c : Context × Context) (S : List Scope)
    (ns : Surroundings → List Note) : Prop where
  represents : ρ.Represents c.1.realm c.1.environment S
  covers : (ρ.filing c.1.realm).Covers (ns ⟨(ρ.filing c.1.realm).rules, S⟩)

namespace World.Admits

variable {ρ σ : World} {c : Context × Context} {S : List Scope}
  {ns ms : Surroundings → List Note}

/-- What may be evaluated may be evaluated in later worlds. -/
theorem mono (hle : ρ ≤ σ) (h : ρ.Admits c S ns) : σ.Admits c S ns := by
  refine ⟨h.represents.mono hle, ?_⟩
  rw [hle.filing]
  exact h.covers

/-- Parts of admitted syntax are admitted. -/
theorem part (h : ρ.Admits c S ns) (hsub : ∀ r, ∀ n ∈ ms ⟨r, S⟩, n ∈ ns ⟨r, S⟩) :
    ρ.Admits c S ms :=
  ⟨h.represents, fun n hn => h.covers n (hsub _ n hn)⟩

theorem left (h : ρ.Admits c S fun s => ns s ++ ms s) : ρ.Admits c S ns :=
  h.part fun _ _ => List.mem_append_left _

theorem right (h : ρ.Admits c S fun s => ns s ++ ms s) : ρ.Admits c S ms :=
  h.part fun _ _ => List.mem_append_right _

/-- Syntax whose parts may be evaluated may be evaluated. -/
theorem append (h : ρ.Admits c S ns) (h' : ρ.Admits c S ms) :
    ρ.Admits c S fun s => ns s ++ ms s :=
  ⟨h.represents, Filing.covers_append.mpr ⟨h.covers, h'.covers⟩⟩

theorem tail {n : Surroundings → Note} (h : ρ.Admits c S fun s => n s :: ms s) :
    ρ.Admits c S ms :=
  h.part fun _ _ => List.mem_cons_of_mem _

theorem head {n : Surroundings → Note} (h : ρ.Admits c S fun s => n s :: ms s) :
    ρ.Admits c S fun s => [n s] :=
  h.part fun r m hm => by
    rw [List.mem_singleton] at hm
    subst hm
    exact List.mem_cons_self

/-- What the analysis has been at is as the grammar has it. -/
theorem isGrammatical {p : Placement} (h : ρ.Admits c S fun s => .placed p :: ms s) :
    p.isGrammatical = true :=
  Filing.isGrammatical_of_covers h.head.covers

end World.Admits

/-! ### Places -/

/-- Corresponding places. -/
inductive Reference.Rel (ρ : World) : Reference → Reference → Prop
  | variable {e f} (h : ρ.environment e f) (name : String) :
    Rel ρ (.variable e name) (.variable f name)
  | unresolvable (name : String) : Rel ρ (.unresolvable name) (.unresolvable name)
  | property {v w} (h : ρ.value v w) (k : PropertyKey) : Rel ρ (.property v k) (.property w k)

theorem Reference.Rel.mono {ρ σ : World} (hle : ρ ≤ σ) {r s : Reference} (h : Rel ρ r s) :
    Rel σ r s := by
  cases h with
  | «variable» he n => exact .variable (hle.environment he) n
  | unresolvable n => exact .unresolvable n
  | property hv k => exact .property (hv.mono hle) k

/-- Corresponding places have corresponding receivers. -/
theorem Reference.Rel.receiver {ρ : World} {r s : Reference} (h : Rel ρ r s) :
    ρ.value r.receiver s.receiver := by
  cases h with
  | property hv _ => exact hv
  | _ => exact .undefined

/-- Corresponding places, or none on both sides. -/
abbrev World.reference? (ρ : World) : Option Reference → Option Reference → Prop :=
  Option.Rel (Reference.Rel ρ)

theorem World.reference?.mono {ρ σ : World} (hle : ρ ≤ σ) {r s : Option Reference}
    (h : ρ.reference? r s) : σ.reference? r s := by
  cases h with
  | none => exact .none
  | some h => exact .some (h.mono hle)

/-- Two corresponding pairs of values. -/
def World.values₂ (ρ : World) (p q : Value × Value) : Prop := ρ.value p.1 q.1 ∧ ρ.value p.2 q.2

/-! ### Tasks -/

/-- Corresponding environments of which the first one has the given names, or none on both sides. -/
def World.Binds (ρ : World) (names : List String) :
    Option EnvironmentId → Option EnvironmentId → Prop :=
  Option.Rel fun e f => ρ.environment e f ∧ ∀ n ∈ names, ρ.isBound e n

namespace World.Binds

variable {ρ σ : World} {names : List String} {e f : Option EnvironmentId}

theorem mono (hle : ρ ≤ σ) (h : ρ.Binds names e f) : σ.Binds names e f := by
  cases h with
  | none => exact .none
  | @some e f h =>
    exact .some ⟨hle.environment h.1, fun n hn => hle.isBound ⟨f, h.1⟩ (h.2 n hn)⟩

theorem subset {others : List String} (hsub : ∀ n ∈ others, n ∈ names) (h : ρ.Binds names e f) :
    ρ.Binds others e f := by
  cases h with
  | none => exact .none
  | some h => exact .some ⟨h.1, fun n hn => h.2 n (hsub n hn)⟩

end World.Binds

/-- Corresponding tasks. -/
inductive Task.Rel {φ : RealmId → Filing} (ρ : World) :
    Stack φ → {α : Type} → Task α → Task α → Prop
  | expression {c K S e} (h : ρ.Admits c S (Expr.notes · e)) :
    Rel ρ (Stack.push c K) (.expression e) (.expression e)
  | name {c K S place n} (h : ρ.Admits c S fun s => [s.use place n]) :
    Rel ρ (Stack.push c K) (.name place n) (.name place n)
  | link {c K S e} (h : ρ.Admits c S (Expr.notes · e)) :
    Rel ρ (Stack.push c K) (.link e) (.link e)
  | statement {c K S s} (h : ρ.Admits c S (Stmt.notes · s))
    (hb : ∀ n ∈ s.lexicalNames, ρ.isBound c.1.environment n) :
    Rel ρ (Stack.push c K) (.statement s) (.statement s)
  | assign {c K S t v w} (h : ρ.Admits c S (Target.notes · t)) (hv : ρ.value v w) :
    Rel ρ (Stack.push c K) (.assign t v) (.assign t w)
  | bind {c K p v w e f} (h : (∃ n, p = .identifier n) ∨ ∃ S, ρ.Admits c S (Pattern.notes · p))
    (hv : ρ.value v w) (he : ρ.Binds p.names e f) :
    Rel ρ (Stack.push c K) (.bind p v e) (.bind p w f)
  | call {K f g v w vs ws} (h : ρ.callable f g) (hv : ρ.value v w) (hvs : ρ.values vs ws) :
    Rel ρ K (.call f v vs) (.call g w ws)
  | primitive {K o p hint} (h : ρ.object o p) : Rel ρ K (.primitive o hint) (.primitive p hint)

/-- Corresponding results of a task. -/
def Task.Result : {α : Type} → Task α → World → α → α → Prop
  | _, .expression _, ρ => ρ.value
  | _, .name _ _, ρ => Reference.Rel ρ
  | _, .link _, ρ => Option.Rel ρ.values₂
  | _, .statement _, ρ => Completion.Rel ρ
  | _, .assign _ _, _ => fun _ _ => True
  | _, .bind _ _ _, _ => fun _ _ => True
  | _, .call _ _ _, ρ => ρ.value
  | _, .primitive _ _, ρ => ρ.value

/-- Agreeing machines: loops go round as often at most, and corresponding tasks are done in related
ways. -/
structure Machine.Agree (φ : RealmId → Filing) (m m' : Machine) : Prop where
  fuel : m.fuel = m'.fuel
  run : ∀ {α : Type} {t t' : Task α} {ρ : World} {K : Stack φ}, Task.Rel ρ K t t' →
    Related ρ K (m.run t) (m'.run t') fun σ x y => t.Result σ x y

namespace Machine.Agree

variable {φ : RealmId → Filing} {m m' : Machine} {ρ : World} {c : Context × Context} {K : Stack φ}
  {S : List Scope}

/-- Expressions are tasks. -/
theorem expression (h : m.Agree φ m') {e : Expr} (he : ρ.Admits c S (Expr.notes · e)) :
    Related ρ (K.push c) (m.expression e) (m'.expression e) fun σ v w => σ.value v w :=
  h.run (.expression he)

theorem name (h : m.Agree φ m') {place : Span} {n : String}
    (hn : ρ.Admits c S fun s => [s.use place n]) :
    Related ρ (K.push c) (m.name place n) (m'.name place n) fun σ r s => Reference.Rel σ r s :=
  h.run (.name hn)

/-- Calls are tasks that need no syntax. -/
theorem call (h : m.Agree φ m') {f g : ObjectId} {v w : Value} {vs ws : List Value}
    (hf : ρ.callable f g) (hv : ρ.value v w) (hvs : ρ.values vs ws) :
    Related ρ K (m.call f v vs) (m'.call g w ws) fun σ v w => σ.value v w :=
  h.run (.call hf hv hvs)

/-- Expressions one after the other, each in the world that the one before has led to. -/
theorem expressions (h : m.Agree φ m') {es : List Expr}
    (hes : ρ.Admits c S (expressionNotes · es)) :
    Related ρ (K.push c) (m.expressions es) (m'.expressions es) fun σ vs ws => σ.values vs ws := by
  induction es generalizing ρ with
  | nil => exact .pure .nil
  | cons e es ih =>
    refine (h.expression hes.left).bind fun hle hv => ?_
    exact (ih (hes.right.mono hle)).bind fun hle' hvs => .pure (.cons (hv.mono hle') hvs)

end Machine.Agree

end Scriptlet
