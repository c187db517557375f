import Mathlib.Logic.Relator
import Scriptlet.Proofs.Elements

/-!
# Worlds

Two agents that do the same work put objects, environments and realms in different places.  A world
says which places of one agent correspond to which places of the other one.  It also says what is
known of the places of the first agent and does not change: which objects are functions, which names
an environment may have and which it has, and from which root a realm was made.

Worlds grow while the agents work, and everything that a world says stays true in later ones.

## Main definitions

* `Note.isEssential`, `Note.isGrammatical`, `Filing.Covers` — what the analysis of a root knows of a
  piece of syntax.
* `World` — corresponding places and what is known of them, with the order in which worlds grow.
* `World.Represents` — an environment holds the names of the scopes around a piece of syntax.
* `Value.Rel`, `Slot.Rel`, `Closure.Rel`, `Object.Rel`, `Environment.Rel`, `Realm.Rel` —
  corresponding values, objects, environments and realms.

## Main results

* `World.Represents.mono`, `Value.Rel.mono`, `Object.Rel.mono`, `Environment.Rel.mono`,
  `Realm.Rel.mono` — **what corresponds in a world corresponds in all later ones**.
-/

namespace Scriptlet

/-! ### What the analysis knows -/

/-- Whether the grammar allows the syntax where it stands: functions that are expressions have a
body, arrow functions have no name, and declarations of variables that belong to a block stand in
lists. -/
def Placement.isGrammatical : Placement → Bool
  | .expressed f =>
    !f.isBodiless
      && match f.form with
        | .declaration => false
        | .expression => true
        | .arrow => f.name.isNone
  | .declared f => f.form == .declaration
  | .single (.declaration d) => !d.kind.isLexical
  | .single _ => true

namespace Note

/-- The function whose place is noted, if it is that of a function. -/
def function? : Note → Option Function
  | placed (.expressed f) | placed (.declared f) => some f
  | _ => none

/-- Whether the note is one that evaluation relies on. -/
def isEssential : Note → Bool
  | use _ _ _ | scope _ _ | placed _ => true
  | fault _ | warning _ => false

/-- Whether the note says only that something cannot be evaluated. -/
def isWarning : Note → Bool
  | warning _ => true
  | _ => false

theorem isWarning_of_isEssential {n : Note} (h : n.isEssential = true) : n.isWarning = false := by
  cases n with
  | warning => cases h
  | _ => rfl

/-- Whether the note is about syntax that the grammar allows. -/
def isGrammatical : Note → Bool
  | placed p => p.isGrammatical
  | _ => true

end Note

/-- There is no fault in a root that is accepted. -/
theorem not_fault_of_analyze {r : Rules} {root : Root} {s : Analysis} (h : analyze r root = .ok s)
    (f : Fault) : .fault f ∉ root.notes r := by
  unfold analyze at h
  dsimp only at h
  split at h
  · cases h
  · next hnil => exact fun hf => nomatch List.filterMap_eq_nil_iff.mp hnil _ hf

/-- The functions that are written in a root. -/
def Root.functions (r : Rules) (root : Root) : List Function :=
  (match root with
    | .function f => [f]
    | .expression _ => []) ++ (root.notes r).filterMap (·.function?)

/-- The notes on the inside of a function, for what is around its parameters and its body. -/
def Function.innerNotes (c : Surroundings) (f : Function) : List Note :=
  bindingNotes (c.inside (Scope.ofParameters f)) f.parameters
    ++ optionalPatternNotes (c.inside (Scope.ofParameters f)) f.rest
    ++ .scope f.span (Scope.ofFunction f) :: bodyNotes (c.inside (Scope.ofFunction f)) f.body

/-- What is on file about a realm: the root it was made from, the rules of its analysis, and the
names that were supplied to it. -/
structure Filing where
  /-- The root. -/
  root : Root
  /-- The rules of its analysis. -/
  rules : Rules
  /-- The names that were supplied. -/
  supplied : List String

namespace Filing

/-- The notes of a list, but for warnings, are among those on the root, and are grammatical. -/
def Covers (φ : Filing) (ns : List Note) : Prop :=
  ∀ n ∈ ns, n.isWarning = false → n ∈ φ.root.notes φ.rules ∧ n.isGrammatical

variable {φ : Filing} {ns ms : List Note}

@[simp] theorem covers_nil : φ.Covers [] := by simp [Covers]

@[simp] theorem covers_append : φ.Covers (ns ++ ms) ↔ φ.Covers ns ∧ φ.Covers ms :=
  List.forall_mem_append

theorem covers_cons {n : Note} : φ.Covers (n :: ns) ↔ φ.Covers [n] ∧ φ.Covers ns := by
  rw [← covers_append, List.singleton_append]

@[simp] theorem covers_use {place : Span} {name : String} {S : List Scope} :
    φ.Covers [.use place name S] ↔ .use place name S ∈ φ.root.notes φ.rules := by
  simp [Covers, Note.isWarning, Note.isGrammatical]

@[simp] theorem covers_scope {place : Span} {s : Scope} :
    φ.Covers [.scope place s] ↔ .scope place s ∈ φ.root.notes φ.rules := by
  simp [Covers, Note.isWarning, Note.isGrammatical]

/-- A function whose place is covered is written in the root. -/
theorem mem_functions_of_covers {n : Note} {f : Function} (h : φ.Covers [n])
    (hn : n.function? = some f) : f ∈ φ.root.functions φ.rules := by
  refine List.mem_append_right _ (List.mem_filterMap.mpr ⟨n, (h n (List.mem_singleton.mpr rfl) ?_).1, hn⟩)
  cases n with
  | placed p => rfl
  | _ => cases hn

theorem isGrammatical_of_covers {p : Placement} (h : φ.Covers [.placed p]) :
    p.isGrammatical = true :=
  (h _ (List.mem_singleton.mpr rfl) rfl).2

end Filing

/-! ### Worlds -/

/-- What is settled about an environment when it is made. -/
structure Plan where
  /-- The environment around it. -/
  outer : Option EnvironmentId
  /-- A number above that of the environment around it. -/
  depth : Nat
  /-- The names that it may have. -/
  allows : String → Prop

/-- Which places of one agent correspond to which places of another one, and what is known of those
of the first one. -/
structure World where
  /-- Corresponding objects. -/
  object : ObjectId → ObjectId → Prop
  /-- Corresponding environments. -/
  environment : EnvironmentId → EnvironmentId → Prop
  /-- Corresponding realms. -/
  realm : RealmId → RealmId → Prop
  /-- No object corresponds to two. -/
  object_unique : Relator.BiUnique object
  /-- No environment corresponds to two. -/
  environment_unique : Relator.BiUnique environment
  /-- No realm corresponds to two. -/
  realm_unique : Relator.BiUnique realm
  /-- Objects that are functions. -/
  isFunction : ObjectId → Prop
  /-- What is settled about environments. -/
  plan : EnvironmentId → Plan
  /-- Names that environments have. -/
  isBound : EnvironmentId → String → Prop
  /-- The environments of the names that were supplied to realms. -/
  globals : RealmId → EnvironmentId
  /-- What is on file about realms. -/
  filing : RealmId → Filing

namespace World

/-- Whether an environment of the first agent corresponds to one of the second agent. -/
def Knows (ρ : World) (e : EnvironmentId) : Prop := ∃ f, ρ.environment e f

/-- The second world says all that the first one says, and possibly more. -/
structure Le (ρ σ : World) : Prop where
  object : ∀ {o p}, ρ.object o p → σ.object o p
  environment : ∀ {e f}, ρ.environment e f → σ.environment e f
  realm : ∀ {r s}, ρ.realm r s → σ.realm r s
  isFunction : ∀ {o}, ρ.isFunction o → σ.isFunction o
  plan : ∀ {e}, ρ.Knows e → σ.plan e = ρ.plan e
  isBound : ∀ {e n}, ρ.Knows e → ρ.isBound e n → σ.isBound e n
  globals : ∀ {r s}, ρ.realm r s → σ.globals r = ρ.globals r
  filing : σ.filing = ρ.filing

instance : LE World := ⟨Le⟩

variable {ρ σ τ : World}

theorem le_refl (ρ : World) : ρ ≤ ρ :=
  ⟨id, id, id, id, fun _ => rfl, fun _ => id, fun _ => rfl, rfl⟩

theorem Knows.mono {e : EnvironmentId} (h : ρ ≤ σ) : ρ.Knows e → σ.Knows e := by
  rintro ⟨f, hf⟩
  exact ⟨f, h.environment hf⟩

theorem le_trans (h : ρ ≤ σ) (h' : σ ≤ τ) : ρ ≤ τ where
  object := fun ho => h'.object (h.object ho)
  environment := fun he => h'.environment (h.environment he)
  realm := fun hr => h'.realm (h.realm hr)
  isFunction := fun ho => h'.isFunction (h.isFunction ho)
  plan := fun hk => (h'.plan (hk.mono h)).trans (h.plan hk)
  isBound := fun hk hb => h'.isBound (hk.mono h) (h.isBound hk hb)
  globals := fun hr => (h'.globals (h.realm hr)).trans (h.globals hr)
  filing := h'.filing.trans h.filing

/-! ### Environments and scopes -/

/-- An environment of a realm holds, together with those around it, the names of the given scopes,
the innermost one first, and no others up to the names that were supplied.  A scope has an
environment of its own unless it is without names; the scope of a function may have two, one for its
parameters around one for its other names. -/
inductive Represents (ρ : World) (r : RealmId) : EnvironmentId → List Scope → Prop
  | globals (known : ∃ s, ρ.realm r s) : Represents ρ r (ρ.globals r) []
  | nameless {e s S} (names : s.declarations = []) (rest : Represents ρ r e S) :
    Represents ρ r e (s :: S)
  | single {e o s S} (known : ρ.Knows e) (outer : (ρ.plan e).outer = some o)
    (names : ∀ n, s.has n = true ↔ (ρ.plan e).allows n)
    (bound : ∀ n, (ρ.plan e).allows n → ρ.isBound e n) (rest : Represents ρ r o S) :
    Represents ρ r e (s :: S)
  | split {e p o s S} (known : ρ.Knows e) (outer : (ρ.plan e).outer = some p)
    (known_parameters : ρ.Knows p) (outer_parameters : (ρ.plan p).outer = some o)
    (names : ∀ n, s.has n = true ↔ (ρ.plan e).allows n ∨ (ρ.plan p).allows n)
    (bound : ∀ n, (ρ.plan e).allows n → ρ.isBound e n)
    (bound_parameters : ∀ n, (ρ.plan p).allows n → ρ.isBound p n) (rest : Represents ρ r o S) :
    Represents ρ r e (s :: S)

theorem Represents.mono {r : RealmId} {e : EnvironmentId} {S : List Scope} (h : ρ ≤ σ)
    (he : ρ.Represents r e S) : σ.Represents r e S := by
  induction he with
  | globals known =>
    obtain ⟨s, hs⟩ := known
    rw [← h.globals hs]
    exact .globals ⟨s, h.realm hs⟩
  | nameless names _ ih => exact .nameless names ih
  | single known outer names bound _ ih =>
    rw [← h.plan known] at outer names bound
    exact .single (known.mono h) outer names (fun n hn => h.isBound known (bound n hn)) ih
  | split known outer known' outer' names bound bound' _ ih =>
    rw [← h.plan known] at outer names bound
    rw [← h.plan known'] at outer' names bound'
    exact .split (known.mono h) outer (known'.mono h) outer' names
      (fun n hn => h.isBound known (bound n hn)) (fun n hn => h.isBound known' (bound' n hn)) ih

end World

variable {ρ σ : World}

/-! ### Values -/

/-- Corresponding values: the same one, or corresponding objects. -/
inductive Value.Rel (ρ : World) : Value → Value → Prop
  | undefined : Rel ρ .undefined .undefined
  | null : Rel ρ .null .null
  | boolean (b : Bool) : Rel ρ (.boolean b) (.boolean b)
  | number (x : Float) : Rel ρ (.number x) (.number x)
  | text (t : Text) : Rel ρ (.text t) (.text t)
  | symbol (s : Symbol) : Rel ρ (.symbol s) (.symbol s)
  | object {o p} (h : ρ.object o p) : Rel ρ (.object o) (.object p)

/-- Corresponding values of two agents. -/
abbrev World.value (ρ : World) : Value → Value → Prop := Value.Rel ρ

/-- Corresponding values, one for one. -/
abbrev World.values (ρ : World) : List Value → List Value → Prop := List.Forall₂ ρ.value

/-- Corresponding values, or none on both sides. -/
abbrev World.value? (ρ : World) : Option Value → Option Value → Prop := Option.Rel ρ.value

/-- Values correspond in every world in which the objects correspond. -/
theorem Value.Rel.imp (h : ∀ {o p}, ρ.object o p → σ.object o p) {v w : Value}
    (hv : ρ.value v w) : σ.value v w := by
  cases hv with
  | object ho => exact .object (h ho)
  | undefined => exact .undefined
  | null => exact .null
  | boolean b => exact .boolean b
  | number x => exact .number x
  | text t => exact .text t
  | symbol s => exact .symbol s

theorem Value.Rel.mono (h : ρ ≤ σ) {v w : Value} (hv : ρ.value v w) : σ.value v w :=
  hv.imp h.object

theorem World.values.mono (h : ρ ≤ σ) {vs ws : List Value} (hv : ρ.values vs ws) :
    σ.values vs ws :=
  hv.imp fun _ _ => Value.Rel.mono h

theorem World.value?.mono (h : ρ ≤ σ) {v w : Option Value} (hv : ρ.value? v w) :
    σ.value? v w := by
  cases hv with
  | none => exact .none
  | some hv => exact .some (hv.mono h)

/-! ### Objects -/

/-- Corresponding properties. -/
structure Slot.Rel (ρ : World) (p q : Slot) : Prop where
  key : p.key = q.key
  value : ρ.value p.value q.value
  isWritable : p.isWritable = q.isWritable
  isEnumerable : p.isEnumerable = q.isEnumerable
  isConfigurable : p.isConfigurable = q.isConfigurable

theorem Slot.Rel.mono (h : ρ ≤ σ) {p q : Slot} (hp : Slot.Rel ρ p q) : Slot.Rel σ p q :=
  { hp with value := hp.value.mono h }

/-- Corresponding closures: the function is written in the root of the realm, and the analysis has
looked at the way in which it is; their environments correspond, and represent the scopes in which the
analysis has found the function. -/
structure Closure.Rel (ρ : World) (c d : Closure) : Prop where
  code : c.code = d.code
  name : c.name = d.name
  environment : ρ.environment c.environment d.environment
  realm : ρ.realm c.realm d.realm
  hasBody : c.code.isBodiless = false
  isWritten : c.code ∈ (ρ.filing c.realm).root.functions (ρ.filing c.realm).rules
  isChecked : (ρ.filing c.realm).Covers (c.code.kindNotes (ρ.filing c.realm).rules)
  around : ∃ S, ρ.Represents c.realm c.environment S ∧
    (ρ.filing c.realm).Covers (c.code.innerNotes ⟨(ρ.filing c.realm).rules, S⟩)

theorem Closure.Rel.mono (h : ρ ≤ σ) {c d : Closure} (hc : Closure.Rel ρ c d) :
    Closure.Rel σ c d := by
  obtain ⟨S, hS, hn⟩ := hc.around
  refine { hc with environment := h.environment hc.environment, realm := h.realm hc.realm,
                   isWritten := ?_, isChecked := ?_, around := ⟨S, hS.mono h, ?_⟩ }
  all_goals rw [h.filing]
  exacts [hc.isWritten, hc.isChecked, hn]

/-- Corresponding kinds of objects. -/
inductive ObjectKind.Rel (ρ : World) : ObjectKind → ObjectKind → Prop
  | ordinary : Rel ρ .ordinary .ordinary
  | array {e e'} (h : Elements.Rel ρ.value e e') : Rel ρ (.array e) (.array e')
  | closure {c d} (h : Closure.Rel ρ c d) : Rel ρ (.closure c) (.closure d)
  | builtin (b : Builtin) : Rel ρ (.builtin b) (.builtin b)
  | error (k : ErrorKind) : Rel ρ (.error k) (.error k)

theorem ObjectKind.Rel.mono (h : ρ ≤ σ) {k l : ObjectKind} (hk : ObjectKind.Rel ρ k l) :
    ObjectKind.Rel σ k l := by
  cases hk with
  | ordinary => exact .ordinary
  | array he => exact .array (he.imp fun _ _ => Value.Rel.mono h)
  | closure hc => exact .closure (hc.mono h)
  | builtin b => exact .builtin b
  | error k => exact .error k

/-- Corresponding objects. -/
structure Object.Rel (ρ : World) (x y : Object) : Prop where
  kind : ObjectKind.Rel ρ x.kind y.kind
  isExtensible : x.isExtensible = y.isExtensible
  properties : List.Forall₂ (Slot.Rel ρ) x.properties.toList y.properties.toList

theorem Object.Rel.mono (h : ρ ≤ σ) {x y : Object} (hx : Object.Rel ρ x y) : Object.Rel σ x y :=
  ⟨hx.kind.mono h, hx.isExtensible, hx.properties.imp fun _ _ => Slot.Rel.mono h⟩

/-! ### Environments and realms -/

/-- Corresponding variables; none may be deleted. -/
structure Variable.Rel (ρ : World) (u v : Variable) : Prop where
  value : ρ.value? u.value v.value
  isStrict : u.isStrict = v.isStrict
  isMutable : u.isMutable = v.isMutable
  isDeletable : u.isDeletable = false ∧ v.isDeletable = false

theorem Variable.Rel.mono (h : ρ ≤ σ) {u v : Variable} (hu : Variable.Rel ρ u v) :
    Variable.Rel σ u v :=
  { hu with value := hu.value.mono h }

/-- Corresponding variables with the same name. -/
def Variable.NamedRel (ρ : World) (p q : String × Variable) : Prop :=
  p.1 = q.1 ∧ Variable.Rel ρ p.2 q.2

/-- Corresponding environments, of which the first one is in the given place and keeps to its
plan. -/
structure Environment.Rel (ρ : World) (e : EnvironmentId) (x y : Environment) : Prop where
  outer : Option.Rel ρ.environment x.outer y.outer
  entries : List.Forall₂ (Variable.NamedRel ρ) x.entries y.entries
  plan : x.outer = (ρ.plan e).outer
  depth : ∀ o, x.outer = some o → (ρ.plan o).depth < (ρ.plan e).depth
  allowed : ∀ n, x.has n = true → (ρ.plan e).allows n
  bound : ∀ n, ρ.isBound e n → x.has n = true

/-- Corresponding realms, of which the first one is in the given place and is what its filing
says. -/
structure Realm.Rel (ρ : World) (r : RealmId) (x y : Realm) : Prop where
  source : x.source = y.source
  root : x.root = y.root
  scopes : x.scopes = y.scopes
  globals : ρ.environment x.globals y.globals
  templates : List.Forall₂ (fun p q => p.1 = q.1 ∧ ρ.object p.2 q.2) x.templates y.templates
  filed : x.root = (ρ.filing r).root
  rules : (ρ.filing r).rules.expressionOnly = x.isExpressionOnly
  entered : ∀ place s, .scope place s ∈ x.root.notes (ρ.filing r).rules → place ∈ x.scopes
  filed_globals : x.globals = ρ.globals r
  outermost : (ρ.plan x.globals).outer = none
  supplied : ∀ n, (ρ.plan x.globals).allows n ↔ n ∈ (ρ.filing r).supplied
  bound : ∀ n, (ρ.plan x.globals).allows n → ρ.isBound x.globals n

theorem Realm.Rel.mono (h : ρ ≤ σ) {r : RealmId} {x y : Realm} (hr : ∃ s, ρ.realm r s)
    (hx : Realm.Rel ρ r x y) : Realm.Rel σ r x y := by
  obtain ⟨s, hs⟩ := hr
  -- The environment of the globals is known already, so its plan is the same in the later world.
  have hk : ρ.Knows x.globals := ⟨_, hx.globals⟩
  refine { hx with
    globals := h.environment hx.globals
    templates := hx.templates.imp fun _ _ ht => ⟨ht.1, h.object ht.2⟩
    filed := by rw [h.filing]; exact hx.filed
    rules := by rw [h.filing]; exact hx.rules
    entered := by rw [h.filing]; exact hx.entered
    filed_globals := by rw [h.globals hs]; exact hx.filed_globals
    outermost := by rw [h.plan hk]; exact hx.outermost
    supplied := by rw [h.plan hk, h.filing]; exact hx.supplied
    bound := ?_ }
  intro n hn
  rw [h.plan hk] at hn
  exact h.isBound hk (hx.bound n hn)

end Scriptlet
