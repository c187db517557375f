import Scriptlet.Proofs.Deletion
import Scriptlet.Proofs.Heights

/-!
# Chains

A chain has links that end it early if what is before them is nullish.  Its links are evaluated by
rules of their own, which follow those of members and calls: unless the chain ends early, it has the
outcome of the expression that has plain members and calls for links.

The rules differ in one place.  A plain call looks through all wrappers for the object that its callee
is read from, but a link of a chain only through those that belong to the chain.  So a call in a chain
whose callee is a member in parentheses is not told the object.

The two evaluations nest their tasks differently, so that they need stacks of different heights; what
is compared are the outcomes of high enough stacks.

## Main definitions

* `Expr.plain` — a link without the possibility to end early.
* `Expr.KeepsReceivers` — the callees of a chain are no members in wrappers of their own.
* `Expr.EndsEarly` — what is before a link that may end the chain is nullish.
* `Eval.Trims` — a computation does what another one does, unless it ends early.

## Main results

* `Machine.link_trims` — a link and the plain expression, with the object that a call is told.
* `chain_agrees` — **a chain agrees with the plain expression, or ends early**.
* `chain_loses_receiver` — a member in parentheses, called in a chain.
-/

namespace Scriptlet

open Eval

/-! ### Computations that may end early -/

namespace Eval

variable {α β γ : Type} {a b c : Agent}

/-- High enough stacks come to the same outcomes of both computations. -/
def Same (F G : Machine → Eval α) : Prop := ∀ a r, Reaches F a r ↔ Reaches G a r

/-- The first computation has the outcome of the second one, unless it ends early in one of the given
states. -/
structure Trims (F : Machine → Eval (Option α)) (G : Machine → Eval α) (a : Agent)
    (E : Agent → Prop) : Prop where
  result : ∀ x b, Reaches F a (.ok (some x) b) ↔ Reaches G a (.ok x b)
  early : ∀ b, Reaches F a (.ok none b) ↔ E b
  interrupt : ∀ i b, Reaches F a (.error i b) → Reaches G a (.error i b)
  complete : (∀ b, ¬E b) → ∀ i b, Reaches G a (.error i b) → Reaches F a (.error i b)

namespace Trims

variable {F : Machine → Eval (Option α)} {G : Machine → Eval α} {E : Agent → Prop}

theorem same {G' : Machine → Eval α} (h : Trims F G a E) (hG : Same G G') : Trims F G' a E where
  result := fun x b => (h.result x b).trans (hG _ _)
  early := h.early
  interrupt := fun i b hF => (hG _ _).mp (h.interrupt i b hF)
  complete := fun hE i b hG' => h.complete hE i b ((hG _ _).mpr hG')

theorem of_eq {F' : Machine → Eval (Option α)} {G' : Machine → Eval α} (h : Trims F G a E)
    (hF : ∀ m, F' m = F m) (hG : ∀ m, G' m = G m) : Trims F' G' a E :=
  funext hF ▸ funext hG ▸ h

theorem congr {E' : Agent → Prop} (h : Trims F G a E) (hE : ∀ b, E b ↔ E' b) : Trims F G a E' where
  result := h.result
  early := fun b => (h.early b).trans (hE b)
  interrupt := h.interrupt
  complete := fun hE' => h.complete fun b hb => hE' b ((hE b).mp hb)

/-- A computation that never ends early. -/
theorem always {F : Machine → Eval α} (hF : Rises F) (a : Agent) :
    Trims (fun m => do return some (← F m)) F a fun _ => False where
  result := fun x b => by
    rw [reaches_bind_ok hF fun x _ _ _ => .refl trivial]
    constructor
    · rintro ⟨y, c, hy, hpure⟩
      obtain ⟨heq, rfl⟩ := reaches_pure.mp hpure
      cases heq
      exact hy
    · exact fun hx => ⟨x, b, hx, reaches_pure.mpr ⟨rfl, rfl⟩⟩
  early := fun b => by
    rw [reaches_bind_ok hF fun x _ _ _ => .refl trivial, iff_false]
    rintro ⟨y, c, -, hpure⟩
    cases (reaches_pure.mp hpure).1
  interrupt := fun i b h => by
    rw [reaches_bind_error hF fun x _ _ _ => .refl trivial] at h
    obtain hx | ⟨y, c, -, hpure⟩ := h
    · exact hx
    · exact absurd hpure not_reaches_pure_error
  complete := fun _ i b h => by
    rw [reaches_bind_error hF fun x _ _ _ => .refl trivial]
    exact .inl h

/-- A computation that ends early if a condition holds, under which the other one has no result. -/
theorem guard {p : Prop} [Decidable p] (h : ¬p → Trims F G a fun _ => False)
    (hp : p → ∀ x b, ¬Reaches G a (.ok x b)) :
    Trims (fun m => if p then Pure.pure none else F m) G a fun b => p ∧ b = a := by
  by_cases hc : p
  · simp only [if_pos hc]
    refine ⟨fun x b => ?_, fun b => ?_, fun i b hi => absurd hi not_reaches_pure_error,
      fun hE => absurd ⟨hc, rfl⟩ (hE a)⟩
    · rw [iff_false_right (hp hc x b)]
      intro hx
      cases (reaches_pure.mp hx).1
    · rw [reaches_pure, and_iff_right rfl, and_iff_right hc]
      exact eq_comm
  · simp only [if_neg hc]
    exact (h hc).congr fun b => by rw [false_iff, not_and]; exact fun hp => absurd hp hc

/-- What comes before both computations. -/
theorem after {p : Eval γ} {F : γ → Machine → Eval (Option α)} {G : γ → Machine → Eval α}
    {E : γ → Agent → Agent → Prop} (hF : ∀ x, Rises (F x)) (hG : ∀ x, Rises (G x))
    (h : ∀ x b, Trims (F x) (G x) b (E x b)) :
    Trims (fun m => p >>= fun x => F x m) (fun m => p >>= fun x => G x m) a
      fun c => ∃ x b, p a = .ok x b ∧ E x b c := by
  have hp : Rises fun _ => p := fun _ _ _ => .refl trivial
  have hok : ∀ {x b}, Reaches (fun _ => p) a (.ok x b) ↔ p a = .ok x b := by
    intro x b
    exact reaches_const.trans (and_iff_left nofun)
  refine ⟨fun x c => ?_, fun c => ?_, fun i c hi => ?_, fun hE i c hi => ?_⟩
  · rw [reaches_bind_ok hp hF, reaches_bind_ok hp hG]
    exact exists_congr fun y => exists_congr fun b => and_congr_right fun _ => (h y b).result x c
  · rw [reaches_bind_ok hp hF]
    exact exists_congr fun y => exists_congr fun b => and_congr hok ((h y b).early c)
  · rw [reaches_bind_error hp hF] at hi
    rw [reaches_bind_error hp hG]
    exact hi.imp_right fun ⟨y, b, hy, hi⟩ => ⟨y, b, hy, (h y b).interrupt i c hi⟩
  · rw [reaches_bind_error hp hG] at hi
    rw [reaches_bind_error hp hF]
    refine hi.imp_right fun ⟨y, b, hy, hi⟩ => ⟨y, b, hy, (h y b).complete (fun d hd => ?_) i c hi⟩
    exact hE d ⟨y, b, hok.mp hy, hd⟩

/-- **One after the other**: if the first computation ends early, nothing follows. -/
theorem bind {f : Machine → Option α → Eval (Option β)} {g : Machine → α → Eval β}
    {E' : α → Agent → Agent → Prop} (h : Trims F G a E) (hF : Rises F) (hG : Rises G)
    (hf : ∀ x, Rises fun m => f m x) (hg : ∀ x, Rises fun m => g m x)
    (hnone : ∀ m, f m none = Pure.pure none)
    (hfg : ∀ x b, Trims (fun m => f m (some x)) (fun m => g m x) b (E' x b)) :
    Trims (fun m => F m >>= f m) (fun m => G m >>= g m) a
      fun c => E c ∨ ∃ x b, Reaches G a (.ok x b) ∧ E' x b c := by
  have hend : (fun m => f m none) = fun _ => Pure.pure none := funext hnone
  -- The four parts: results, early ends, interrupts of the chain, and those of the plain expression.
  refine ⟨fun y c => ?_, fun c => ?_, fun i c hi => ?_, fun hE i c hi => ?_⟩
  · rw [reaches_bind_ok hF hf, reaches_bind_ok hG hg]
    constructor
    · rintro ⟨o, b, ho, hy⟩
      -- Behind a chain that has ended there is no result.
      cases o with
      | none =>
        rw [hend] at hy
        cases (reaches_pure.mp hy).1
      | some x => exact ⟨x, b, (h.result x b).mp ho, ((hfg x b).result y c).mp hy⟩
    · rintro ⟨x, b, hx, hy⟩
      exact ⟨some x, b, (h.result x b).mpr hx, ((hfg x b).result y c).mpr hy⟩
  · rw [reaches_bind_ok hF hf]
    constructor
    · rintro ⟨o, b, ho, hc⟩
      cases o with
      | none =>
        rw [hend] at hc
        obtain ⟨-, rfl⟩ := reaches_pure.mp hc
        exact .inl ((h.early b).mp ho)
      | some x => exact .inr ⟨x, b, (h.result x b).mp ho, ((hfg x b).early c).mp hc⟩
    · rintro (hc | ⟨x, b, hx, hc⟩)
      · refine ⟨none, c, (h.early c).mpr hc, ?_⟩
        rw [hend]
        exact reaches_pure.mpr ⟨rfl, rfl⟩
      · exact ⟨some x, b, (h.result x b).mpr hx, ((hfg x b).early c).mpr hc⟩
  · rw [reaches_bind_error hF hf] at hi
    rw [reaches_bind_error hG hg]
    obtain hi | ⟨o, b, ho, hi⟩ := hi
    · exact .inl (h.interrupt i c hi)
    · cases o with
      | none =>
        rw [hend] at hi
        exact absurd hi not_reaches_pure_error
      | some x => exact .inr ⟨x, b, (h.result x b).mp ho, (hfg x b).interrupt i c hi⟩
  · rw [reaches_bind_error hG hg] at hi
    rw [reaches_bind_error hF hf]
    -- The plain expression is interrupted where the chain is, as long as the chain has not ended
    -- before.
    obtain hi | ⟨x, b, hx, hi⟩ := hi
    · exact .inl (h.complete (fun d hd => hE d (.inl hd)) i c hi)
    · refine .inr ⟨some x, b, (h.result x b).mpr hx, (hfg x b).complete (fun d hd => ?_) i c hi⟩
      exact hE d (.inr ⟨x, b, hx, hd⟩)

/-- A task is done by steps. -/
theorem run {t : Task (Option α)} (h : Trims (fun m => m.step t) G a E) :
    Trims (fun m => m.run t) G a E where
  result := fun x b => reaches_run.trans (h.result x b)
  early := fun b => reaches_run.trans (h.early b)
  interrupt := fun i b hi => h.interrupt i b (reaches_run.mp hi)
  complete := fun hE i b hi => reaches_run.mpr (h.complete hE i b hi)

end Trims

/-- What follows has the same outcomes after both computations. -/
theorem Same.bind {F G : Machine → Eval α} {f : Machine → α → Eval β} (h : Same F G) (hF : Rises F)
    (hG : Rises G) (hf : ∀ x, Rises fun m => f m x) :
    Same (fun m => F m >>= f m) (fun m => G m >>= f m) := by
  intro a r
  cases r with
  | ok y c =>
    rw [reaches_bind_ok hF hf, reaches_bind_ok hG hf]
    exact exists_congr fun x => exists_congr fun b => and_congr_left fun _ => h a _
  | error i c =>
    rw [reaches_bind_error hF hf, reaches_bind_error hG hf]
    refine or_congr (h a _) ?_
    exact exists_congr fun x => exists_congr fun b => and_congr_left fun _ => h a _

/-- Both computations have the same outcomes after another one. -/
theorem Same.after {F : Machine → Eval α} {f g : Machine → α → Eval β}
    (h : ∀ x, Same (fun m => f m x) fun m => g m x) (hF : Rises F) (hf : ∀ x, Rises fun m => f m x)
    (hg : ∀ x, Rises fun m => g m x) : Same (fun m => F m >>= f m) fun m => F m >>= g m := by
  intro a r
  cases r with
  | ok y c =>
    rw [reaches_bind_ok hF hf, reaches_bind_ok hF hg]
    exact exists_congr fun x => exists_congr fun b => and_congr_right fun _ => h x b _
  | error i c =>
    rw [reaches_bind_error hF hf, reaches_bind_error hF hg]
    refine or_congr Iff.rfl ?_
    exact exists_congr fun x => exists_congr fun b => and_congr_right fun _ => h x b _

theorem Same.symm {F G : Machine → Eval α} (h : Same F G) : Same G F := fun a r => (h a r).symm

theorem Same.trans {F G H : Machine → Eval α} (h : Same F G) (h' : Same G H) : Same F H :=
  fun a r => (h a r).trans (h' a r)

theorem Same.of_eq {F G : Machine → Eval α} (h : ∀ m, F m = G m) : Same F G :=
  fun _ _ => (funext h : F = G) ▸ Iff.rfl

/-- Where an event has been recorded there is a realm, which need not be looked at. -/
theorem record_realm (event : Event) (p : Eval α) :
    (do record event; let _ ← realm; p : Eval α) = (do record event; p) := by
  funext a
  cases hrecord : record event a with
  | error i b => rw [bind_error hrecord, bind_error hrecord]
  | ok u b =>
    obtain ⟨r, hr⟩ := evaluates_of_record hrecord
    rw [bind_ok hrecord, bind_ok hrecord, bind_ok (realm_eq hr)]

end Eval

/-! ### Links -/

namespace Expr

/-- The link without the possibility to end the chain early. -/
def plain : Expr → Expr
  | call s callee args _ => call s callee.plain args false
  | member s base name _ => member s base.plain name false
  | index s base key _ => index s base.plain key false
  | wrapped s .nonNull content => wrapped s .nonNull content.plain
  | e => e

/-- Whether the expression is a member of another one. -/
def isMember : Expr → Bool
  | member _ _ _ _ | index _ _ _ _ => true
  | _ => false

/-- Whether the expression is a member in wrappers that do not belong to a chain. -/
def hidesMember : Expr → Bool
  | wrapped _ .nonNull content => content.hidesMember
  | wrapped _ _ content => content.inner.isMember
  | _ => false

/-- No callee in the chain is a member in wrappers of its own. -/
def KeepsReceivers : Expr → Prop
  | call _ callee _ _ => callee.hidesMember = false ∧ callee.KeepsReceivers
  | member _ base _ _ | index _ base _ _ => base.KeepsReceivers
  | wrapped _ .nonNull content => content.KeepsReceivers
  | _ => True

theorem span_plain (e : Expr) : e.plain.span = e.span := by
  cases e with
  | wrapped s w content => cases w <;> rfl
  | _ => rfl

theorem hidesMember_plain (e : Expr) : e.plain.hidesMember = e.hidesMember := by
  cases e with
  | wrapped s w content =>
    cases w with
    | nonNull => exact hidesMember_plain content
    | _ => rfl
  | _ => rfl

/-- After the event of a link that stands behind a base, the base ends early or, if the link may end the
chain, is nullish. -/
def EndsAfter (event : Event) (early : Agent → Agent → Prop) (base : Expr) (isOptional : Bool)
    (a c : Agent) : Prop :=
  ∃ b, record event a = .ok () b ∧ (early b c ∨
    isOptional = true ∧ ∃ v, v.isNullish = true ∧ Reaches (fun m => m.expression base) b (.ok v c))

/-- What is before one of the links that may end the chain is nullish, and what has been evaluated
until then leads from the one state to the other. -/
def EndsEarly : Expr → Agent → Agent → Prop
  | call s callee _ isOptional =>
    EndsAfter (.evaluate "CallExpression" s) callee.EndsEarly callee.plain isOptional
  | member s base _ isOptional =>
    EndsAfter (.evaluate "StaticMemberExpression" s) base.EndsEarly base.plain isOptional
  | index s base _ isOptional =>
    EndsAfter (.evaluate "ComputedMemberExpression" s) base.EndsEarly base.plain isOptional
  | wrapped _ .nonNull content => content.EndsEarly
  | _ => fun _ _ => False

end Expr

namespace Machine

variable {m m' : Machine} {e : Expr}

/-- The value of a plain expression that stands for a link, and the object that a call is told. -/
def source (m : Machine) (e : Expr) : Eval (Value × Value) := do
  if e.hidesMember then return (← m.expression e, .undefined) else m.callee e

theorem rises_source (e : Expr) : Rises fun m => m.source e := fun m m' h => by
  dsimp only
  unfold source
  grind -funext

/-- An expression with a meaning under all rules is evaluated after its event. -/
theorem evaluateExpression_eq (he : ∀ r, e.inner.isUnsupported r = false) :
    m.evaluateExpression e
      = (do record (.evaluate e.inner.node e.inner.span); m.value e.inner) := by
  unfold evaluateExpression
  simp only [he, Bool.false_eq_true, if_false]
  exact record_realm _ _

/-- A name or a member is evaluated as a callee is, but for the object. -/
theorem evaluateExpression_place (he : e.inner.isMember = true ∨ ∃ s name, e.inner = .identifier s name) :
    m.evaluateExpression e = (do return (← m.callee e).1) := by
  have hmeaning : ∀ r, e.inner.isUnsupported r = false := by
    rcases he with he | ⟨s, name, he⟩
    · cases hinner : e.inner with
      | member | index => exact fun _ => rfl
      | _ => rw [hinner] at he; cases he
    · rw [he]
      exact fun _ => rfl
  rw [evaluateExpression_eq hmeaning]
  unfold callee referenceOf?
  rcases he with he | ⟨s, name, he⟩
  · cases hinner : e.inner with
    | member s base name isOptional =>
      simp only [bind_assoc, pure_bind, bind_pure]
      rfl
    | index s base key isOptional =>
      simp only [bind_assoc, pure_bind, bind_pure]
      rfl
    | _ => rw [hinner] at he; cases he
  · rw [he]
    simp only [bind_assoc, pure_bind, bind_pure]
    rfl

/-- Any other expression is a callee without an object. -/
theorem callee_value (he : e.inner.isMember = false) (hname : ∀ s name, e.inner ≠ .identifier s name) :
    m.callee e = (do return (← m.expression e, .undefined)) := by
  unfold callee referenceOf?
  cases hinner : e.inner with
  | identifier s name => exact absurd hinner (hname s name)
  | member | index => rw [hinner] at he; cases he
  | _ => rfl

/-- **The source of an expression has its value.** -/
theorem same_source (e : Expr) :
    Same (fun m => m.expression e) fun m => do return (← m.source e).1 := by
  unfold source
  by_cases hhidden : e.hidesMember = true
  · refine .of_eq fun m => ?_
    simp only [hhidden, if_true, bind_assoc, pure_bind, bind_pure]
  · simp only [hhidden, Bool.false_eq_true, if_false]
    by_cases he : e.inner.isMember = true ∨ ∃ s name, e.inner = .identifier s name
    · intro a r
      have hstep : (fun m : Machine => m.step (.expression e)) = fun m => do return (← m.callee e).1 :=
        funext fun m => m.evaluateExpression_place he
      rw [← hstep]
      exact reaches_run
    · rw [not_or, Bool.not_eq_true, not_exists] at he
      refine .of_eq fun m => ?_
      rw [callee_value he.1 fun s name => not_exists.mp (he.2 s) name, bind_assoc]
      simp only [pure_bind, bind_pure]

/-- The value of an expression may be taken from its source. -/
theorem same_source_bind {α : Type} (e : Expr) {f : Machine → Value → Eval α}
    (hf : ∀ v, Rises fun m => f m v) :
    Same (fun m => m.expression e >>= f m) fun m => m.source e >>= fun x => f m x.1 := by
  have hbind := (same_source e).bind (fun _ _ h => h.expression e)
    (fun _ _ h => (rises_source e h).bind fun _ => .refl trivial) hf
  refine hbind.trans (.of_eq fun m => ?_)
  simp only [bind_assoc, pure_bind]

/-! ### Links of chains -/

/-- The result of an expression is the value of its source. -/
theorem reaches_expression_iff {e : Expr} {a c : Agent} {v : Value} :
    Reaches (fun m => m.expression e) a (.ok v c) ↔
      ∃ this, Reaches (fun m => m.source e) a (.ok (v, this) c) := by
  rw [same_source e a, reaches_bind_ok (rises_source e) fun _ _ _ _ => .refl trivial]
  constructor
  · rintro ⟨⟨w, this⟩, b, hw, hpure⟩
    obtain ⟨rfl, rfl⟩ := reaches_pure.mp hpure
    exact ⟨this, hw⟩
  · rintro ⟨this, hv⟩
    exact ⟨(v, this), c, hv, reaches_pure.mpr ⟨rfl, rfl⟩⟩

/-- A base that ends early or is nullish, as its source has it. -/
theorem endsAfter_iff {event : Event} {early : Agent → Agent → Prop} {base : Expr} {isOptional : Bool}
    {a c : Agent} :
    (∃ u b, record event a = .ok u b ∧ (early b c ∨ ∃ x b', Reaches (fun m => m.source base) b (.ok x b') ∧
      (isOptional && x.1.isNullish) = true ∧ c = b')) ↔
      Expr.EndsAfter event early base isOptional a c := by
  constructor
  · rintro ⟨u, b, hb, hearly | ⟨⟨v, this⟩, b', hv, hnullish, rfl⟩⟩
    · exact ⟨b, hb, .inl hearly⟩
    · obtain ⟨hoptional, hv'⟩ := Bool.and_eq_true_iff.mp hnullish
      exact ⟨b, hb, .inr ⟨hoptional, v, hv', reaches_expression_iff.mpr ⟨this, hv⟩⟩⟩
  · rintro ⟨b, hb, hearly | ⟨hoptional, v, hnullish, hv⟩⟩
    · exact ⟨(), b, hb, .inl hearly⟩
    · obtain ⟨this, hsource⟩ := reaches_expression_iff.mp hv
      exact ⟨(), b, hb, .inr ⟨_, c, hsource, Bool.and_eq_true_iff.mpr ⟨hoptional, hnullish⟩, rfl⟩⟩

/-- Nothing is read from what is nullish. -/
theorem not_reaches_getOf {v : Value} (hv : v.isNullish = true) {k : PropertyKey} {w : Value}
    {a b : Agent} : ¬Reaches (fun _ => getOf v k) a (.ok w b) := by
  intro h
  cases v with
  | undefined | null => cases (reaches_const.mp h).1
  | _ => cases hv

/-- What is nullish is not called. -/
theorem not_reaches_invocation {f this : Value} (hf : f.isNullish = true) {args : List Argument}
    {place : Span} {w : Value} {a b : Agent} :
    ¬Reaches (fun m => m.invocation f this args place) a (.ok w b) := by
  rintro ⟨⟨n, hn⟩, -⟩
  unfold invocation at hn
  obtain ⟨vs, c, -, hn⟩ := bind_eq_ok hn
  obtain ⟨id, d, hid, -⟩ := bind_eq_ok hn
  have hnone : c.function? f = none := by
    cases f with
    | undefined | null => rfl
    | _ => cases hf
  unfold requireFunction at hid
  rw [bind_ok (get_apply c), hnone] at hid
  obtain ⟨text, d', -, hraise⟩ := bind_eq_ok hid
  cases hraise

/-- A link behind a base: it ends the chain if it may and the base is nullish, and there would be no
result then. -/
theorem trims_behind (event : Event) {base : Expr} {isOptional : Bool} {a : Agent}
    {f : Machine → Value × Value → Eval (Value × Value)}
    (hbase : ∀ b, Trims (fun m => m.run (.link base)) (fun m => m.source base.plain) b
      (base.EndsEarly b))
    (hf : ∀ x, Rises fun m => f m x)
    (hnullish : ∀ x : Value × Value, x.1.isNullish = true → ∀ b y c,
      ¬Reaches (fun m => f m x) b (.ok y c)) :
    Trims
      (fun m => record event >>= fun _ => m.run (.link base) >>= fun o =>
        o.elim (pure none) fun x =>
          if isOptional && x.1.isNullish then pure none else some <$> f m x)
      (fun m => record event >>= fun _ => m.source base.plain >>= f m) a
      (Expr.EndsAfter event base.EndsEarly base.plain isOptional a) := by
  -- A machine that reaches more does so behind a base too, whatever that has come to.
  have hbehind : ∀ o : Option (Value × Value), Rises fun m => o.elim (pure none) fun x =>
      if isOptional && x.1.isNullish then pure none else some <$> f m x := by
    intro o m m' h
    cases o with
    | none => exact .refl trivial
    | some x =>
      dsimp only [Option.elim_some]
      split
      · exact .refl trivial
      · rw [← bind_pure_comp, ← bind_pure_comp]
        exact (hf x h).bind fun _ => .refl trivial
  have hlink : Rises fun m => m.run (.link base) := fun _ _ h => h.run _
  have hsource := rises_source base.plain
  refine (Trims.after (fun _ _ _ h => (hlink h).bind fun o => hbehind o h)
    (fun _ _ _ h => (hsource h).bind fun x => hf x h) fun _ b => ?_).congr fun c => endsAfter_iff
  -- A base that is missing ends the chain if the link is optional; otherwise both go on in the same
  -- way.
  refine (hbase b).bind hlink hsource hbehind hf (fun m => rfl) fun x c => ?_
  refine .guard (fun _ => ?_) fun hx y d => ?_
  · simp only [← bind_pure_comp]
    exact .always (hf x) c
  · exact hnullish x (Bool.and_eq_true_iff.mp hx).2 c y d

/-- Reading the property of a value whose key is found by evaluation. -/
def reading (key : Machine → Eval PropertyKey) (m : Machine) (v : Value) : Eval (Value × Value) := do
  let k ← key m
  return (← getOf v k, v)

/-- A link that reads a property of a base. -/
theorem trims_reading (key : Machine → Eval PropertyKey) (hkey : Rises key) {event : Event}
    {base : Expr} {isOptional : Bool} {a : Agent}
    (hbase : ∀ b, Trims (fun m => m.run (.link base)) (fun m => m.source base.plain) b
      (base.EndsEarly b)) :
    Trims
      (fun m => record event >>= fun _ => m.run (.link base) >>= fun o =>
        o.elim (pure none) fun x =>
          if isOptional && x.1.isNullish then pure none else some <$> reading key m x.1)
      (fun m => record event >>= fun _ => m.expression base.plain >>= reading key m) a
      (Expr.EndsAfter event base.EndsEarly base.plain isOptional a) := by
  have hreading : ∀ v, Rises fun m => reading key m v := fun v _ _ h =>
    (hkey h).bind fun _ => .refl trivial
  have hnullish : ∀ v : Value, v.isNullish = true → ∀ b y c,
      ¬Reaches (fun m => reading key m v) b (.ok y c) := by
    rintro v hv b y c ⟨⟨n, hn⟩, -⟩
    -- Nothing can be read of a value that is missing, so such a base has no result.
    obtain ⟨k, d, -, hn⟩ := bind_eq_ok hn
    obtain ⟨w, d', hw, -⟩ := bind_eq_ok hn
    exact not_reaches_getOf hv (reaches_const.mpr ⟨hw, nofun⟩)
  have hsource : ∀ _ : Unit, Same (fun m => m.source base.plain >>= fun x => reading key m x.1)
      fun m => m.expression base.plain >>= reading key m := fun _ =>
    (same_source_bind base.plain hreading).symm
  have hexpression : Rises fun m => m.expression base.plain >>= reading key m := fun _ _ h =>
    (h.expression _).bind fun v => hreading v h
  refine (trims_behind event hbase (fun x => hreading x.1) fun x => hnullish x.1).same ?_
  refine Same.after hsource (fun _ _ _ => .refl trivial) (fun _ _ _ h => ?_) fun _ => hexpression
  exact (rises_source base.plain h).bind fun x => hreading x.1 h

/-! ### Links that are not read or called -/

/-- Wrappers make no difference to an expression. -/
theorem same_wrapped (s : Span) (w : Wrapper) (e : Expr) :
    Same (fun m => m.expression (.wrapped s w e)) fun m => m.expression e := fun _ _ =>
  (reaches_run (t := .expression (.wrapped s w e))).trans (reaches_run (t := .expression e)).symm

/-- A wrapper that belongs to a chain makes no difference to the source. -/
theorem same_source_wrapped (s : Span) (e : Expr) :
    Same (fun m => m.source (.wrapped s .nonNull e)) fun m => m.source e := by
  have hpair : Same (fun m => do return (← m.expression (.wrapped s .nonNull e), Value.undefined))
      fun m => do return (← m.expression e, Value.undefined) :=
    (same_wrapped s .nonNull e).bind (fun _ _ h => h.expression _) (fun _ _ h => h.expression _)
      fun _ _ _ _ => .refl trivial
  -- Whether the receiver is kept is decided by what is inside the wrapper.
  cases hhidden : e.hidesMember with
  | true =>
    refine (Same.of_eq fun m => ?_).trans (hpair.trans (.of_eq fun m => ?_))
    · exact if_pos hhidden
    · exact (if_pos hhidden).symm
  | false =>
    have hne : ¬e.hidesMember = true := by rw [hhidden]; exact Bool.false_ne_true
    refine (Same.of_eq fun m => if_neg hne).trans (.trans ?_ (.of_eq fun m => (if_neg hne).symm))
    refine Same.after (F := fun m => m.referenceOf? e) (fun r => ?_) (fun _ _ h => h.referenceOf? e)
      (fun r _ _ h => ?_) fun r _ _ h => ?_
    · cases r with
      | some r => exact .of_eq fun _ => rfl
      | none => exact hpair
    · cases r with
      | some r => exact .refl trivial
      | none => exact (h.expression _).bind fun _ => .refl trivial
    · cases r with
      | some r => exact .refl trivial
      | none => exact (h.expression _).bind fun _ => .refl trivial

/-- What a name stands for is not told to a call. -/
theorem resolve_receiver {α : Type} (name : String) (f : Reference → Value → Eval α) :
    (resolve name >>= fun r => f r r.receiver) = resolve name >>= fun r => f r .undefined := by
  unfold resolve
  simp only [bind_assoc]
  refine bind_congr fun id => bind_congr fun a => ?_
  cases a.environments.holder name id <;> rfl

/-- A name is resolved without a machine. -/
theorem same_name {α : Type} (s : Span) (name : String) (f : Reference → Eval α) :
    Same (fun m => m.name s name >>= f) fun _ => resolve name >>= f :=
  Same.bind (f := fun _ => f) (fun _ _ => reaches_run) (fun _ _ h => h.name s name)
    (fun _ _ _ => .refl trivial) fun _ _ _ _ => .refl trivial

/-- A name is a source without an object. -/
theorem same_callee_identifier {e : Expr} {s : Span} {name : String}
    (he : e.inner = .identifier s name) :
    Same (fun m => do return (← m.expression e, Value.undefined)) fun m => m.callee e := by
  let event : Event := .evaluate "IdentifierReference" s
  -- Both sides come down to recording the identifier, resolving it and reading the reference.
  have hstep : Same (fun m => do return (← m.expression e, Value.undefined))
      fun m => do return (← m.evaluateExpression e, Value.undefined) :=
    Same.bind (fun _ _ => reaches_run) (fun _ _ h => h.expression _)
      (fun _ _ h => h.evaluateExpression _) fun _ _ _ _ => .refl trivial
  have hvalue : ∀ m : Machine, (do return (← m.evaluateExpression e, Value.undefined))
      = record event >>= fun _ => m.name s name >>= fun r => do
        return (← readReference r, Value.undefined) := by
    intro m
    rw [evaluateExpression_eq fun r => by rw [he]; rfl, he]
    simp only [bind_assoc, value]
    rfl
  have hcallee : ∀ m : Machine, m.callee e = record event >>= fun _ => m.name s name >>= fun r => do
        return (← readReference r, r.receiver) := by
    intro m
    unfold callee referenceOf?
    rw [he]
    simp only [bind_assoc, pure_bind]
    rfl
  have hresolve : ∀ f : Reference → Eval (Value × Value),
      Same (fun m => record event >>= fun _ => m.name s name >>= f)
        fun _ => record event >>= fun _ => resolve name >>= f := fun f =>
    Same.after (fun _ => same_name s name f) (fun _ _ _ => .refl trivial)
      (fun _ _ _ h => (h.name s name).bind fun _ => .refl trivial) fun _ _ _ _ => .refl trivial
  -- The receiver of a name is undefined, which is what the left side has.
  refine hstep.trans ((Same.of_eq hvalue).trans ((hresolve _).trans ?_))
  refine ((Same.of_eq hcallee).trans ((hresolve _).trans (.of_eq fun _ => ?_))).symm
  refine bind_congr fun _ => ?_
  exact resolve_receiver name fun r v => do return (← readReference r, v)

/-- An expression that is no member is a source without an object. -/
theorem same_source_value {e : Expr} (he : e.hidesMember = true ∨ e.inner.isMember = false) :
    Same (fun m => do return (← m.expression e, Value.undefined)) fun m => m.source e := by
  cases hhidden : e.hidesMember with
  | true => exact .of_eq fun m => (if_pos hhidden).symm
  | false =>
    have hne : ¬e.hidesMember = true := by rw [hhidden]; exact Bool.false_ne_true
    have hmember := he.resolve_left hne
    refine .trans ?_ (.of_eq fun m => (if_neg hne).symm)
    by_cases hname : ∃ s name, e.inner = .identifier s name
    · obtain ⟨s, name, hinner⟩ := hname
      exact same_callee_identifier hinner
    · refine .of_eq fun m => (callee_value hmember fun s name hinner => ?_).symm
      exact hname ⟨s, name, hinner⟩

/-- A link that is an expression. -/
theorem trims_value {e : Expr} {a : Agent} (he : e.hidesMember = true ∨ e.inner.isMember = false)
    (hlink : ∀ m : Machine, m.step (.link e) = (do return some (← m.expression e, .undefined))) :
    Trims (fun m => m.step (.link e)) (fun m => m.source e) a fun _ => False := by
  have hpair : Rises fun m => (do return (← m.expression e, Value.undefined) : Eval (Value × Value)) :=
    fun _ _ h => (h.expression e).bind fun _ => .refl trivial
  refine ((Trims.always hpair a).of_eq (fun m => ?_) fun _ => rfl).same (same_source_value he)
  rw [hlink]
  simp only [bind_assoc, pure_bind]

/-- A link that calls what is before it. -/
theorem trims_invocation {s : Span} {callee : Expr} {args : List Argument} {isOptional : Bool}
    {a : Agent} (hhidden : callee.hidesMember = false)
    (hcallee : ∀ b, Trims (fun m => m.run (.link callee)) (fun m => m.source callee.plain) b
      (callee.EndsEarly b)) :
    Trims (fun m => m.step (.link (.call s callee args isOptional)))
      (fun m => m.source (.call s callee.plain args false)) a
      (Expr.EndsEarly (.call s callee args isOptional) a) := by
  let f : Machine → Value × Value → Eval (Value × Value) :=
    fun m x => do return (← m.invocation x.1 x.2 args callee.span, .undefined)
  have hf : ∀ x, Rises fun m => f m x := fun x _ _ h =>
    (h.invocation x.1 x.2 args _).bind fun _ => .refl trivial
  -- A call of what is missing throws, so such a callee has no result.
  have hnullish : ∀ x : Value × Value, x.1.isNullish = true → ∀ b y c,
      ¬Reaches (fun m => f m x) b (.ok y c) := by
    rintro x hx b y c ⟨⟨n, hn⟩, -⟩
    obtain ⟨w, d, hw, -⟩ := bind_eq_ok hn
    exact not_reaches_invocation hx ⟨⟨n, hw⟩, nofun⟩
  refine ((trims_behind (.evaluate "CallExpression" s) hcallee hf hnullish).of_eq (fun m => ?_)
    fun m => rfl).same ?_
  · refine bind_congr fun _ => bind_congr fun o => ?_
    cases o with
    | none => rfl
    | some x => simp only [Option.elim_some, f, map_bind, map_pure]
  -- The plain call is no place, so that it is evaluated as an expression.
  let plain : Expr := .call s callee.plain args false
  have hplain : ∀ m : Machine, m.evaluateExpression plain
      = (do record (.evaluate "CallExpression" s); m.value plain) := fun m =>
    evaluateExpression_eq fun _ => rfl
  have hvalue : ∀ m : Machine, m.value plain
      = m.source callee.plain >>= fun x => m.invocation x.1 x.2 args callee.span := by
    intro m
    unfold source
    rw [Expr.hidesMember_plain, hhidden]
    simp only [plain, value, Expr.span_plain]
    rfl
  have hstep : Same (fun m => m.expression plain) fun m => m.evaluateExpression plain := fun _ _ =>
    reaches_run
  have hpair := hstep.bind (f := fun _ v => pure (v, Value.undefined)) (fun _ _ h => h.expression _)
    (fun _ _ h => h.evaluateExpression _) fun _ _ _ _ => .refl trivial
  have hsource : ∀ m : Machine, m.source plain = (do return (← m.expression plain, .undefined)) :=
    fun m => callee_value rfl nofun
  refine (Same.of_eq fun m => ?_).trans (hpair.symm.trans (.of_eq fun m => (hsource m).symm))
  rw [hplain, hvalue]
  simp only [bind_assoc]
  rfl

/-- **A link has the outcome of the plain expression**, and the object that a call is told, unless it
ends early. -/
theorem link_trims (e : Expr) (he : e.KeepsReceivers) (a : Agent) :
    Trims (fun m => m.run (.link e)) (fun m => m.source e.plain) a (e.EndsEarly a) := by
  -- Each link is evaluated as its plain form is, once what is in front of it has a value.
  refine .run ?_
  cases e with
  | call s callee args isOptional => exact trims_invocation he.1 (link_trims callee he.2)
  | member s base name isOptional =>
    refine (trims_reading (fun _ => pure name) (fun _ _ _ => .refl trivial) (link_trims base he)).of_eq
      (fun m => ?_) fun m => ?_
    · refine bind_congr fun _ => bind_congr fun o => ?_
      cases o with
      | none => rfl
      | some x => simp only [Option.elim_some, reading, map_bind, map_pure, pure_bind]
    · change m.callee (.member s base.plain name false) = _
      unfold callee referenceOf?
      simp only [Expr.inner, bind_assoc, pure_bind]
      rfl
  | index s base key isOptional =>
    refine (trims_reading (fun m => m.expression key >>= m.toKey) (fun _ _ h => ?_)
      (link_trims base he)).of_eq (fun m => ?_) fun m => ?_
    · exact (h.expression key).bind fun v => h.toKey v
    · refine bind_congr fun _ => bind_congr fun o => ?_
      cases o with
      | none => rfl
      | some x => simp only [Option.elim_some, reading, map_bind, map_pure, bind_assoc]
    · change m.callee (.index s base.plain key false) = _
      unfold callee referenceOf?
      simp only [Expr.inner, bind_assoc, pure_bind]
      refine bind_congr fun _ => bind_congr fun v => ?_
      simp only [reading, bind_assoc]
      rfl
  | wrapped s w content =>
    cases w with
    | nonNull => exact .same (link_trims content he a) (same_source_wrapped s content.plain).symm
    -- Other wrappers lose the receiver in a chain; the plain form has none to lose then.
    | _ => exact trims_value (Bool.eq_false_or_eq_true _) fun m => rfl
  | _ => exact trims_value (.inr rfl) fun m => rfl

/-- An expression and its source are interrupted alike. -/
theorem reaches_interrupt_iff {e : Expr} {a c : Agent} {i : Interrupt} :
    Reaches (fun m => m.expression e) a (.error i c) ↔ Reaches (fun m => m.source e) a (.error i c) := by
  rw [same_source e a, reaches_bind_error (rises_source e) fun _ _ _ _ => .refl trivial]
  refine or_iff_left ?_
  rintro ⟨x, b, -, hpure⟩
  exact not_reaches_pure_error hpure

/-- A chain has the value of its last link, or none. -/
theorem reaches_chain_iff {place : Span} {link : Expr}
    (hmeaning : ∀ s base field isOptional, link ≠ .privateMember s base field isOptional)
    {a b : Agent} (hb : record (.evaluate "ChainExpression" place) a = .ok () b)
    {r : EStateM.Result Interrupt Agent Value} :
    Reaches (fun m => m.expression (.chain place link)) a r ↔
      Reaches (fun m => m.run (.link link) >>= fun o => pure (o.elim .undefined (·.1))) b r := by
  have hchain : ∀ m : Machine, m.evaluateExpression (.chain place link) a
      = (m.run (.link link) >>= fun o => pure (o.elim .undefined (·.1)) : Eval Value) b := by
    intro m
    rw [evaluateExpression_eq fun _ => rfl]
    refine (bind_ok hb).trans (congrFun (?_ : m.chain link = _) b)
    unfold chain
    split
    · next s base field isOptional => exact absurd rfl (hmeaning s base field isOptional)
    · refine bind_congr fun o => ?_
      cases o <;> rfl
  refine reaches_run.trans (and_congr_left fun _ => exists_congr fun n => ?_)
  change (Machine.ofDepth n).evaluateExpression _ a = r ↔ _
  rw [hchain]

end Machine

open Machine

/-- **A chain agrees with the plain expression, or ends early.**  If what is before one of the links
that may end the chain is nullish, the chain is undefined, and what has been evaluated until then is all
that has happened.  Otherwise it comes to the same outcome as the expression with plain members and
calls, after the event of its own. -/
theorem chain_agrees {place : Span} {link : Expr} (hkeeps : link.KeepsReceivers)
    (hmeaning : ∀ s base field isOptional, link ≠ .privateMember s base field isOptional)
    {a b : Agent} (hb : record (.evaluate "ChainExpression" place) a = .ok () b) :
    (∀ c, link.EndsEarly b c → ∀ r,
      Reaches (fun m => m.expression (.chain place link)) a r ↔ r = .ok .undefined c) ∧
    ((∀ c, ¬link.EndsEarly b c) → ∀ r, Reaches (fun m => m.expression (.chain place link)) a r ↔
      Reaches (fun m => m.expression link.plain) b r) := by
  have htrims := link_trims link hkeeps b
  have hlink : Rises fun m => m.run (.link link) := fun _ _ h => h.run _
  have hvalue : ∀ o : Option (Value × Value),
      Rises fun _ => (pure (o.elim .undefined (·.1)) : Eval Value) := fun _ _ _ _ => .refl trivial
  constructor
  -- A chain that ends early has one outcome, which is reached.
  · intro c hc r
    have hearly : Reaches (fun m => m.expression (.chain place link)) a (.ok .undefined c) := by
      rw [reaches_chain_iff hmeaning hb, reaches_bind_ok hlink hvalue]
      exact ⟨none, c, (htrims.early c).mpr hc, reaches_pure.mpr ⟨rfl, rfl⟩⟩
    constructor
    · exact fun hr => hr.unique hearly fun _ _ h => h.expression _
    · rintro rfl
      exact hearly
  · intro hfull r
    rw [reaches_chain_iff hmeaning hb]
    cases r with
    | ok v c =>
      rw [reaches_bind_ok hlink hvalue, reaches_expression_iff]
      constructor
      · rintro ⟨o, d, ho, hpure⟩
        obtain ⟨rfl, rfl⟩ := reaches_pure.mp hpure
        -- It does not end early here, so its result is that of the plain expression.
        cases o with
        | none => exact absurd ((htrims.early d).mp ho) (hfull d)
        | some x => exact ⟨x.2, (htrims.result x d).mp ho⟩
      · rintro ⟨this, hsource⟩
        exact ⟨some (v, this), c, (htrims.result _ c).mpr hsource, reaches_pure.mpr ⟨rfl, rfl⟩⟩
    | error i c =>
      rw [reaches_bind_error hlink hvalue, reaches_interrupt_iff]
      constructor
      · rintro (hi | ⟨o, d, -, hpure⟩)
        · exact htrims.interrupt i c hi
        · exact absurd hpure not_reaches_pure_error
      · exact fun hi => .inl (htrims.complete hfull i c hi)

/-- An element of an array is read by a chain, and a chain without an array ends early. -/
theorem chain_agrees_single :
    let key : Expr := .constant ⟨9, 12⟩ (.string "0")
    let link : Expr := .index ⟨0, 13⟩ .single key true
    let early : Expr := .index ⟨0, 13⟩ (.constant ⟨0, 4⟩ .null) key true
    (∃ v c, Reaches (fun m => m.expression (.chain ⟨0, 13⟩ link)) .nameless (.ok v c) ∧
      Reaches (fun m => m.expression link.plain) .nameless (.ok v c)) ∧
    ∃ c, early.EndsEarly .nameless c ∧
      Reaches (fun m => m.expression (.chain ⟨0, 13⟩ early)) .nameless (.ok .undefined c) := by
  intro key link early
  have hlink := @chain_agrees ⟨0, 13⟩ link trivial nofun .nameless _ rfl
  have hearly := @chain_agrees ⟨0, 13⟩ early trivial nofun .nameless _ rfl
  constructor
  -- The base is an array with one element, which is there.
  · have hbase : Reaches (fun m => m.expression .single) .nameless
        (.ok (.object ⟨0⟩) { Agent.nameless with objects := #[.single] }) := ⟨⟨2, rfl⟩, nofun⟩
    have hfull : ∀ c, ¬link.EndsEarly .nameless c := by
      rintro c ⟨b, hb, hsingle | ⟨-, v, hv, hc⟩⟩
      · exact hsingle
      · cases hb
        cases hc.unique hbase fun _ _ h => h.expression _
        cases hv
    have hplain : ((Task.run 4 (.expression link.plain)).run' .nameless).isSome = true := by
      decide +kernel
    obtain ⟨v, c, hv⟩ := ok_of_run' hplain
    have hreaches : Reaches (fun m => m.expression link.plain) .nameless (.ok v c) := ⟨⟨4, hv⟩, nofun⟩
    exact ⟨v, c, (hlink.2 hfull _).mpr hreaches, hreaches⟩
  · have hends : early.EndsEarly .nameless .nameless :=
      ⟨.nameless, rfl, .inr ⟨rfl, .null, rfl, ⟨1, rfl⟩, nofun⟩⟩
    exact ⟨.nameless, hends, (hearly.1 _ hends _).mpr rfl⟩

/-- **A call in a chain does not see the object of a member in parentheses**, and the plain call does:
an element is taken from an array by the one, and the other one throws. -/
theorem chain_loses_receiver :
    let callee : Expr := .wrapped ⟨0, 12⟩ .parentheses (.member ⟨1, 11⟩ .single "pop" false)
    let link : Expr := .call ⟨0, 16⟩ callee [] true
    (∃ v b, Task.run 4 (.expression link.plain) .nameless = .ok v b) ∧
      ∃ v b, Task.run 7 (.expression (.chain ⟨0, 16⟩ link)) .nameless = .error (.thrown v) b := by
  intro callee link
  have hplain : ((Task.run 4 (.expression link.plain)).run' .nameless).isSome = true := by
    decide +kernel
  have hchain : ((Task.run 7 (.expression (.chain ⟨0, 16⟩ link))).run' .nameless).isSome = false ∧
      ((catching (Task.run 7 (.expression (.chain ⟨0, 16⟩ link))) pure).run' .nameless).isSome = true := by
    decide +kernel
  exact ⟨ok_of_run' hplain, thrown_of_run' hchain.1 hchain.2⟩

end Scriptlet
