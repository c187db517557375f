import Scriptlet.Proofs.Running
import Scriptlet.Proofs.Trimming

/-!
# Roots

A root that is accepted gets a realm of its own on both sides.  The environment of the names that
were supplied to it represents no scopes, so the root may be evaluated there: inside the scope around
the root, which knows the name of a function.

## Main definitions

* `Root.isGrammatical` — the grammar allows the root.
* `World.withRealm` — the world in which two more realms correspond.
* `Answered` — corresponding outcomes of two requests.

## Main results

* `Agrees.pushRealm` — new realms correspond.
* `Machine.Agree.evaluateRoot` — **agreeing machines evaluate a root in related ways**.
* `Outcome.concluding` — agents agree after they have been tidied up.
-/

namespace Scriptlet

open Eval

/-! ### Roots that are accepted -/

/-- Whether the grammar allows the root: it does so inside, and a function is a declaration with a
body. -/
def Root.isGrammatical (r : Rules) (root : Root) : Bool :=
  (root.notes r).all (·.isGrammatical)
    && match root with
      | .function f => f.form == .declaration && !f.isBodiless
      | .expression _ => true

/-- The scope around a function knows its name. -/
theorem Root.has_scope_function (f : Function) (n : String) :
    (Root.function f).scope.has n = true ↔ f.name = some n := by
  dsimp only [Root.scope]
  cases f.name with
  | none => simp [Scope.has_empty]
  | some name =>
    rw [Scope.has_declare, Scope.has_empty, Option.some.injEq]
    simp only [Bool.false_eq_true, false_or]
    exact eq_comm

/-- The names that are supplied when values are provided for the free names of an analysis. -/
def Analysis.supplied {α : Type} (s : Analysis) (provided : List (String × α)) : List String :=
  (supply s.free provided).map (·.1)

variable {φ : RealmId → Filing} {ρ : World} {K : Stack φ} {a b : Agent} {m m' : Machine}

theorem mem_places_of_analyze {r : Rules} {root : Root} {s : Analysis}
    (h : analyze r root = .ok s) {place : Span} {x : Scope}
    (hx : .scope place x ∈ root.notes r) : place ∈ s.places := by
  unfold analyze at h
  dsimp only at h
  split at h
  · cases h
  · cases h
    exact List.mem_filterMap.mpr ⟨_, hx, rfl⟩

/-! ### New realms -/

theorem Agrees.not_realm_size (h : Agrees ρ K a b) (s : RealmId) : ¬ρ.realm ⟨a.realms.size⟩ s := by
  intro hs
  obtain ⟨x, y, hx, -, -⟩ := h.realm hs
  exact Nat.lt_irrefl _ (Array.getElem?_eq_some_iff.mp hx).1

theorem Agrees.not_realm_size_right (h : Agrees ρ K a b) (r : RealmId) :
    ¬ρ.realm r ⟨b.realms.size⟩ := by
  intro hr
  obtain ⟨x, y, -, hy, -⟩ := h.realm hr
  exact Nat.lt_irrefl _ (Array.getElem?_eq_some_iff.mp hy).1

/-- The world in which two more realms correspond, of which the first one has the names that were
supplied in the given environment. -/
def World.withRealm (ρ : World) (r s : RealmId) (e : EnvironmentId) (hr : ∀ s', ¬ρ.realm r s')
    (hs : ∀ r', ¬ρ.realm r' s) : World :=
  { ρ with
    realm := fun r' s' => ρ.realm r' s' ∨ r' = r ∧ s' = s
    realm_unique := biUnique_or ρ.realm_unique hr hs
    globals := fun r' => if r' = r then e else ρ.globals r' }

theorem World.le_withRealm {r s : RealmId} {e : EnvironmentId} (hr : ∀ s', ¬ρ.realm r s')
    (hs : ∀ r', ¬ρ.realm r' s) : ρ ≤ ρ.withRealm r s e hr hs :=
  { World.le_refl ρ with
    realm := .inl
    globals := fun h => if_neg (by rintro rfl; exact hr _ h) }

namespace Agrees

/-- The world after corresponding realms have been made on both sides. -/
def realmWorld (h : Agrees ρ K a b) (e : EnvironmentId) : World :=
  ρ.withRealm ⟨a.realms.size⟩ ⟨b.realms.size⟩ e h.not_realm_size h.not_realm_size_right

theorem le_realmWorld (h : Agrees ρ K a b) (e : EnvironmentId) : ρ ≤ h.realmWorld e :=
  World.le_withRealm _ _

theorem globals_realmWorld (h : Agrees ρ K a b) (e : EnvironmentId) :
    (h.realmWorld e).globals ⟨a.realms.size⟩ = e :=
  if_pos rfl

/-- **New realms correspond.** -/
theorem pushRealm {k : Nat} (h : Agrees ρ (Stack.idle φ k) a b) {x y : Realm} {e : EnvironmentId}
    (hxy : Realm.Rel (h.realmWorld e) ⟨a.realms.size⟩ x y) :
    Agrees (h.realmWorld e) (Stack.idle φ (k + 1)) { a with realms := a.realms.push x }
      { b with realms := b.realms.push y } where
  object := by
    intro o p hop
    obtain ⟨x', y', hx, hy, hxy'⟩ := h.object hop
    exact ⟨x', y', hx, hy, hxy'.mono (h.le_realmWorld e)⟩
  function := h.function
  environments :=
    { h.environments with
      record := by
        intro i j hij
        obtain ⟨x', y', hx, hy, hxy'⟩ := h.environments.record hij
        exact ⟨x', y', hx, hy,
          environmentRel_mono (h.le_realmWorld e) ⟨j, hij⟩ hxy'.bound hxy'⟩ }
  realm := by
    -- What corresponded stays where it is, and the new realms are at the ends of both lists.
    rintro r s (hrs | ⟨rfl, rfl⟩)
    · obtain ⟨x', y', hx, hy, hxy'⟩ := h.realm hrs
      have hlt := (Array.getElem?_eq_some_iff.mp hx).1
      have hlt' := (Array.getElem?_eq_some_iff.mp hy).1
      refine ⟨x', y', ?_, ?_, hxy'.mono (h.le_realmWorld e) ⟨s, hrs⟩⟩
      · rw [Array.getElem?_push_lt hlt, ← Array.getElem?_eq_getElem hlt]
        exact hx
      · rw [Array.getElem?_push_lt hlt', ← Array.getElem?_eq_getElem hlt']
        exact hy
    · exact ⟨x, y, Array.getElem?_push_size, Array.getElem?_push_size, hxy⟩
  method := h.method
  contexts_left := h.contexts_left
  contexts_right := h.contexts_right
  -- Between requests nothing is being evaluated, and no array is being joined.
  contexts := fun c hc => by cases hc
  joining_left := h.joining_left
  joining_right := h.joining_right
  joining := fun o ho => by cases ho
  realms_size := by
    rw [Array.size_push]
    exact congrArg (· + 1) h.realms_size
  filing := h.filing
  size := h.size
  same := h.same
  known := by
    intro i hi
    rw [Array.size_push] at hi
    rcases Nat.lt_succ_iff_lt_or_eq.mp hi with hlt | rfl
    · exact (h.known i hlt).imp fun _ hs => .inl hs
    · exact ⟨_, .inr ⟨rfl, rfl⟩⟩

end Agrees

/-! ### Names that are supplied -/

/-- Corresponding values under the same name. -/
def World.provided (ρ : World) (p q : String × Value) : Prop := p.1 = q.1 ∧ ρ.value p.2 q.2

theorem World.provided.mono {σ : World} (h : ρ ≤ σ) {p q : String × Value}
    (hpq : ρ.provided p q) : σ.provided p q :=
  ⟨hpq.1, hpq.2.mono h⟩

theorem provided?_rel {l l' : List (String × Value)} (h : List.Forall₂ ρ.provided l l')
    (name : String) : ρ.value? (provided? name l) (provided? name l') := by
  induction h with
  | nil => exact .none
  | @cons p q _ _ hpq _ ih =>
    obtain ⟨n, v⟩ := p
    obtain ⟨n', w⟩ := q
    obtain ⟨rfl, hvw⟩ := hpq
    unfold provided?
    obtain ⟨hl, hr⟩ | ⟨_, _, hl, hr, h⟩ := Option.rel_cases ih
    · rw [hl, hr]
      dsimp only
      split
      · exact .some hvw
      · exact .none
    · rw [hl, hr]
      exact .some h

theorem supply_rel {l l' : List (String × Value)} (h : List.Forall₂ ρ.provided l l')
    (free : List String) : List.Forall₂ ρ.provided (supply free l) (supply free l') := by
  induction free with
  | nil => exact .nil
  | cons n free ih =>
    unfold supply at ih ⊢
    rw [List.filterMap_cons, List.filterMap_cons]
    obtain ⟨hl, hr⟩ | ⟨_, _, hl, hr, h⟩ := Option.rel_cases (provided?_rel h n)
    · rw [hl, hr]
      exact ih
    · rw [hl, hr]
      exact .cons ⟨rfl, h⟩ ih

namespace Related

variable {e f : EnvironmentId}

theorem createConstant (he : ρ.environment e f) {p q : String × Value}
    (hn : (ρ.plan e).allows p.1) (hpq : ρ.provided p q) :
    Related ρ K (Eval.createConstant e p) (Eval.createConstant f q)
      fun σ _ _ => σ.isBound e p.1 := by
  obtain ⟨n, v⟩ := p
  obtain ⟨n', w⟩ := q
  obtain ⟨rfl, hvw⟩ := hpq
  refine (createVariable he hn (.constant true)).bind fun hle hb => ?_
  have he := hle.environment he
  exact (initializeVariable he hb (hvw.mono hle)).imp fun hle' _ => hle'.isBound ⟨f, he⟩ hb

/-- Constants for names with corresponding values. -/
theorem createConstants (he : ρ.environment e f) {l l' : List (String × Value)}
    (hl : List.Forall₂ ρ.provided l l') (hn : ∀ p ∈ l, (ρ.plan e).allows p.1) :
    Related ρ K (l.forM (Eval.createConstant e)) (l'.forM (Eval.createConstant f))
      fun σ _ _ => ∀ p ∈ l, σ.isBound e p.1 := by
  induction l generalizing ρ l' with
  | nil =>
    cases hl
    exact pure fun p hp => by cases hp
  | cons p l ih =>
    obtain ⟨q, l', hpq, hrest, rfl⟩ := List.forall₂_cons_left_iff.mp hl
    refine (createConstant he (hn p List.mem_cons_self) hpq).bind fun {σ _ _} hle hb => ?_
    have he' := hle.environment he
    refine (ih he' ?_ ?_).imp fun hle' hbs => ?_
    · exact hrest.imp fun _ _ => World.provided.mono hle
    · intro x hx
      rw [hle.plan ⟨f, he⟩]
      exact hn x (List.mem_cons_of_mem _ hx)
    · exact List.forall_mem_cons.mpr ⟨hle'.isBound ⟨f, he'⟩ hb, hbs⟩

end Related

/-! ### Roots -/

theorem Eval.closure_apply {d : Context} {rest : List Context} (h : a.contexts = d :: rest)
    (f : Function) (e : EnvironmentId) (name : String) :
    Eval.closure f e name a = .ok (.object ⟨a.objects.size⟩)
      { a with objects := a.objects.push (.ofKind (.closure ⟨f, e, d.realm, name⟩)) } := by
  obtain ⟨objects, environments, realms, contexts, joining, methods, count, trace, verbose,
    reports⟩ := a
  dsimp only at h
  subst h
  rfl

/-- A root is made before its name is created; it could as well be made after that. -/
theorem Eval.closure_createConstant {d : Context} {rest : List Context}
    (h : a.contexts = d :: rest) {e : EnvironmentId} {x : Environment}
    (he : a.environments.get? e = some x) (f : Function) (own name : String) :
    (do
      let v ← Eval.closure f e own
      Eval.createConstant e (name, v)
      return v : Eval Value) a
      = (do
          Eval.createVariable e name (.constant true)
          let v ← Eval.closure f e own
          Eval.initializeVariable e name v
          return v : Eval Value) a := by
  have hcreate : ∀ {a : Agent}, a.environments.get? e = some x →
      Eval.createVariable e name (.constant true) a = .ok ()
        { a with environments := a.environments.set e (x.insert name (.constant true)) } :=
    fun he => updateEnvironment_apply he _
  have hclosure : ∀ {a : Agent}, a.contexts = d :: rest → Eval.closure f e own a = .ok _ _ :=
    fun h => closure_apply h f e own
  have hafter :
      ({ a with environments := a.environments.set e (x.insert name (.constant true)) } :
        Agent).contexts = d :: rest := h
  rw [bind_ok (hclosure h), bind_ok (hcreate he), bind_ok (hclosure hafter)]
  unfold Eval.createConstant
  dsimp only
  rw [bind_assoc]
  exact bind_ok (hcreate he)

namespace Machine.Agree

variable {c : Context × Context}

/-- **Agreeing machines evaluate a root in related ways**, where no scopes are around it. -/
theorem evaluateRoot (h : m.Agree φ m') (hc : Context.Rel ρ c.1 c.2)
    (hglobals : ρ.globals c.1.realm = c.1.environment) {root : Root}
    (hroot : (ρ.filing c.1.realm).root = root)
    (hgrammar : root.isGrammatical (ρ.filing c.1.realm).rules = true) :
    Related ρ (K.push c) (m.evaluateRoot c.1.environment root)
      (m'.evaluateRoot c.2.environment root) fun σ v w => σ.value v w := by
  unfold Root.isGrammatical at hgrammar
  rw [Bool.and_eq_true, List.all_eq_true] at hgrammar
  obtain ⟨hnotes, hform⟩ := hgrammar
  have hcovers : (ρ.filing c.1.realm).Covers (root.notes (ρ.filing c.1.realm).rules) :=
    fun n hn _ => ⟨by rw [hroot]; exact hn, hnotes n hn⟩
  have hrepresents : ρ.Represents c.1.realm c.1.environment [] := by
    rw [← hglobals]
    exact .globals ⟨_, hc.realm⟩
  cases root with
  | expression e => exact h.expression ⟨.nameless rfl hrepresents, hcovers⟩
  | function f =>
    rw [Bool.and_eq_true, Bool.not_eq_true', beq_iff_eq] at hform
    obtain ⟨hform, hbody⟩ := hform
    -- The root is a declaration: its name belongs to the scope around it and to none of its own.
    have hsame : ∀ s : Surroundings, s.insideName f = s := by
      intro s
      unfold Surroundings.insideName
      rw [hform]
    obtain ⟨hchecked, hinner⟩ : (ρ.filing c.1.realm).Covers (f.kindNotes (ρ.filing c.1.realm).rules) ∧
        (ρ.filing c.1.realm).Covers
          (f.innerNotes ⟨(ρ.filing c.1.realm).rules, [(Root.function f).scope]⟩) := by
      have hall : (ρ.filing c.1.realm).Covers
        (functionNotes ⟨(ρ.filing c.1.realm).rules, [(Root.function f).scope]⟩ f) := hcovers
      rw [functionNotes_eq _ hbody, hsame] at hall
      exact Filing.covers_append.mp hall
    have hwritten : f ∈ (ρ.filing c.1.realm).root.functions (ρ.filing c.1.realm).rules := by
      rw [hroot]
      exact List.mem_append_left _ List.mem_cons_self
    refine (Related.record _).bind fun hle _ => ?_
    refine (Related.newEnvironment (.some (hle.environment hc.environment))
      (f.name = some ·)).bind fun {σ e e'} hle₁ he => ?_
    obtain ⟨he, houter, hallows⟩ := he
    have hle' := World.le_trans hle hle₁
    have hhas : ∀ n, (Root.function f).scope.has n = true ↔ (σ.plan e).allows n := by
      intro n
      rw [hallows]
      exact Root.has_scope_function f n
    -- The environment represents the scope of the root as soon as the name is bound in it.
    have hrep : ∀ {τ}, σ ≤ τ → (∀ n, f.name = some n → τ.isBound e n) →
        τ.Represents c.1.realm e [(Root.function f).scope] := by
      intro τ hle₂ hbound
      have hplan := hle₂.plan ⟨e', he⟩
      refine .single ⟨e', hle₂.environment he⟩ (by rw [hplan, houter]) (fun n => ?_)
        (fun n hn => ?_) (hrepresents.mono (World.le_trans hle' hle₂))
      · rw [hplan]
        exact hhas n
      · rw [hplan, hallows] at hn
        exact hbound n hn
    unfold Eval.declaredFunction
    cases hname : f.name with
    | none =>
      have hrep := hrep (World.le_refl σ) (by simp [hname])
      rw [← hle'.filing] at hinner hwritten hchecked
      refine (Related.closure he hbody hwritten hchecked hrep hinner _).bind fun _ hv => Related.pure hv
    | some name =>
      -- The closure is related only if its environment binds the name, so the variable is created
      -- first here; the definition has it the other way round, which makes no difference.
      have hswapped : Related σ (K.push c)
          (do
            Eval.createVariable e name (.constant true)
            let v ← Eval.closure f e name
            Eval.initializeVariable e name v
            return v)
          (do
            Eval.createVariable e' name (.constant true)
            let v ← Eval.closure f e' name
            Eval.initializeVariable e' name v
            return v) fun σ v w => σ.value v w := by
        refine (Related.createVariable he (by rw [hallows, hname]) (.constant true)).bind
          fun {τ _ _} hle₂ hb => ?_
        have hrep := hrep hle₂ (by rw [hname]; rintro n ⟨⟩; exact hb)
        have he := hle₂.environment he
        rw [← (World.le_trans hle' hle₂).filing] at hinner hwritten hchecked
        refine (Related.closure he hbody hwritten hchecked hrep hinner _).bind fun hle₃ hv => ?_
        refine (Related.initializeVariable (hle₃.environment he) (hle₃.isBound ⟨e', he⟩ hb)
          hv).bind fun hle₄ _ => ?_
        exact Related.pure (hv.mono hle₄)
      intro a b hab
      obtain ⟨x, y, hx, hy, -⟩ := hab.environments.record he
      have hpush := hswapped a b hab
      rw [← Eval.closure_createConstant hab.contexts_left hx f name name,
        ← Eval.closure_createConstant hab.contexts_right hy f name name] at hpush
      exact hpush

end Machine.Agree

/-! ### Outcomes of requests -/

/-- Corresponding outcomes of what is asked of two agents between which the given number of realms
has been made: afterwards nothing is being evaluated, and the agents agree again.  The world need
not be a later one, as environments may have been removed. -/
inductive Answered {α β : Type} (φ : RealmId → Filing) (k : Nat) (R : World → α → β → Prop) :
    EStateM.Result Interrupt Agent α → EStateM.Result Interrupt Agent β → Prop
  | ok {σ a' b' x y} (h : Agrees σ (Stack.idle φ k) a' b')
    (result : R σ x y) : Answered φ k R (.ok x a') (.ok y b')
  | thrown {σ a' b' v w} (h : Agrees σ (Stack.idle φ k) a' b')
    (value : σ.value v w) :
    Answered φ k R (.error (.thrown v) a') (.error (.thrown w) b')
  | exhausted {σ a' b'} (h : Agrees σ (Stack.idle φ k) a' b') :
    Answered φ k R (.error .exhausted a') (.error .exhausted b')

section Outcomes

variable {α β γ δ : Type} {k : Nat} {R : World → α → β → Prop}

/-- Computations that are related when nothing is being evaluated. -/
theorem Related.answered {p : Eval α} {q : Eval β} (h : Related ρ (Stack.idle φ k) p q R)
    (hab : Agrees ρ (Stack.idle φ k) a b) : Answered φ k R (p a) (q b) := by
  have hpq := h a b hab
  generalize p a = r, q b = r' at hpq
  cases hpq with
  | ok ext hgood => exact .ok hgood.1 hgood.2
  | thrown ext hv hagree => exact .thrown hagree hv
  | exhausted ext hagree => exact .exhausted hagree

/-- **Agents agree after they have been tidied up**, whatever comes of the computations before. -/
theorem Related.concluding {p q : Eval Value}
    (h : Related ρ (Stack.idle φ k) p q fun σ v w => σ.value v w)
    (hab : Agrees ρ (Stack.idle φ k) a b) {tidy tidy' : Agent → Agent}
    (ht : ∀ a : Agent, a.Trims (tidy a)) (ht' : ∀ a : Agent, a.Trims (tidy' a)) :
    Answered φ k World.value (Eval.concluding tidy p a) (Eval.concluding tidy' q b) := by
  have hpq := h a b hab
  unfold Eval.concluding
  generalize p a = r, q b = r' at hpq
  cases hpq with
  | ok ext hgood =>
    obtain ⟨hagree, hv⟩ := hgood
    exact .ok (hagree.trim (ht _) (ht' _)) (hagree.value_living hv)
  | thrown ext hv hagree =>
    exact .thrown (hagree.trim ((ht _).reportUncaught _) ((ht' _).reportUncaught _))
      (hagree.value_living hv)
  | exhausted ext hagree => exact .exhausted (hagree.trim (ht _) (ht' _))

/-- What is asked after a computation that returns. -/
theorem Answered.bind {p : Eval γ} {q : Eval δ} {f : γ → Eval α} {g : δ → Eval β}
    {S : World → γ → δ → Prop} (h : Related ρ (Stack.idle φ k) p q S)
    (hab : Agrees ρ (Stack.idle φ k) a b) (hp : ∃ x a', p a = .ok x a') {n : Nat}
    (hfg : ∀ {σ x y a' b'}, ρ ≤ σ → p a = .ok x a' → Agrees σ (Stack.idle φ k) a' b' → S σ x y →
      Answered φ n R (f x a') (g y b')) :
    Answered φ n R ((p >>= f) a) ((q >>= g) b) := by
  obtain ⟨x, a', hp⟩ := hp
  have hpq := h a b hab
  rw [bind_ok hp]
  rw [hp] at hpq
  generalize hq : q b = r at hpq
  cases hpq with
  | ok ext hgood =>
    rw [bind_ok hq]
    exact hfg ext.le hp hgood.1 hgood.2

/-- What is asked after a computation that makes no realm. -/
theorem Answered.bind_same {p : Eval γ} {q : Eval δ} {f : γ → Eval α} {g : δ → Eval β}
    {S : World → γ → δ → Prop} (h : Related ρ (Stack.idle φ k) p q S)
    (hab : Agrees ρ (Stack.idle φ k) a b)
    (hfg : ∀ {σ x y a' b'}, ρ ≤ σ → Agrees σ (Stack.idle φ k) a' b' → S σ x y →
      Answered φ k R (f x a') (g y b')) :
    Answered φ k R ((p >>= f) a) ((q >>= g) b) := by
  have hpq := h a b hab
  change Answered φ k R (EStateM.bind p f a) (EStateM.bind q g b)
  unfold EStateM.bind
  generalize p a = r, q b = r' at hpq
  cases hpq with
  | ok ext hgood =>
    exact hfg ext.le hgood.1 hgood.2
  | thrown ext hv hagree => exact .thrown hagree hv
  | exhausted ext hagree => exact .exhausted hagree

/-- Outcomes of which the results are changed. -/
theorem Answered.map {p : Eval α} {q : Eval β} {f : α → γ} {g : β → δ}
    {S : World → γ → δ → Prop} (h : Answered φ k R (p a) (q b))
    (hfg : ∀ {σ x y}, R σ x y → S σ (f x) (g y)) :
    Answered φ k S ((p >>= fun x => pure (f x)) a) ((q >>= fun y => pure (g y)) b) := by
  change Answered φ k S (EStateM.bind p _ a) (EStateM.bind q _ b)
  unfold EStateM.bind
  generalize p a = r, q b = r' at h
  cases h with
  | ok hagree result => exact .ok hagree (hfg result)
  | thrown hagree value => exact .thrown hagree value
  | exhausted hagree => exact .exhausted hagree

end Outcomes

theorem Eval.createConstant_ok {e : EnvironmentId} (h : ∃ x, a.environments.get? e = some x)
    (p : String × Value) : ∃ a', Eval.createConstant e p a = .ok () a' ∧
      ∃ x, a'.environments.get? e = some x := by
  obtain ⟨x, hx⟩ := h
  have hx' := Environments.get?_set_self hx (x.insert p.1 (.constant true))
  have hfind : (x.insert p.1 (.constant true)).find? p.1 = some (.constant true) := by
    rw [Environment.find?_insert, if_pos rfl]
  unfold Eval.createConstant Eval.createVariable
  rw [bind_ok (updateEnvironment_apply hx _)]
  unfold Eval.initializeVariable
  rw [bind_ok (environmentAt_apply hx'), hfind]
  exact ⟨_, updateEnvironment_apply hx' _, _, Environments.get?_set_self hx' _⟩

theorem Eval.createConstants_ok {e : EnvironmentId} (l : List (String × Value))
    (h : ∃ x, a.environments.get? e = some x) :
    ∃ a', l.forM (Eval.createConstant e) a = .ok () a' := by
  induction l generalizing a with
  | nil => exact ⟨a, rfl⟩
  | cons p l ih =>
    obtain ⟨a', ha', hx⟩ := createConstant_ok h p
    obtain ⟨a'', ha''⟩ := ih hx
    exact ⟨a'', (bind_ok ha').trans ha''⟩

/-! ### Loading and calling -/

namespace Machine.Agree

variable {k : Nat} {root : Root} {source : Source} {p q : Provisions} {tidy tidy' : Agent → Agent}

/-- **Agreeing machines call corresponding functions in corresponding ways.** -/
theorem invoke (h : m.Agree φ m') (hab : Agrees ρ (Stack.idle φ k) a b) {v w : Value}
    (hv : ρ.value v w) {vs ws : List Value} (hvs : ρ.values vs ws)
    (ht : ∀ a : Agent, a.Trims (tidy a)) (ht' : ∀ a : Agent, a.Trims (tidy' a)) :
    Answered φ k World.value (m.invokeTidying tidy v vs a)
      (m'.invokeTidying tidy' w ws b) :=
  .bind_same (Related.callable hv) hab fun hle hab' hf =>
    (h.call hf .undefined (World.values.mono hle hvs)).concluding hab' ht ht'

/-- A root with faults is not loaded. -/
theorem load_rejected (hab : Agrees ρ (Stack.idle φ k) a b) (hvar : p.noVar = q.noVar)
    {r : Rejection} (hr : analyze ⟨root.isExpression, p.noVar⟩ root = .error r) :
    Answered φ k World.value (m.loadTidying tidy root source p a)
      (m'.loadTidying tidy' root source q b) := by
  unfold Machine.loadTidying
  rw [← hvar, hr]
  exact (Related.raise _ _).answered hab

/-- **Agreeing machines load a root in corresponding ways**, into realms about which what is on file
is true. -/
theorem load (h : m.Agree φ m') (hab : Agrees ρ (Stack.idle φ k) a b)
    (hprovided : List.Forall₂ ρ.provided p.values q.values) (hvar : p.noVar = q.noVar)
    {s : Analysis} (hs : analyze ⟨root.isExpression, p.noVar⟩ root = .ok s)
    (hgrammar : root.isGrammatical ⟨root.isExpression, p.noVar⟩ = true)
    (hφ : φ ⟨k⟩ = ⟨root, ⟨root.isExpression, p.noVar⟩, s.supplied p.values⟩)
    (ht : ∀ a : Agent, a.Trims (tidy a)) (ht' : ∀ a : Agent, a.Trims (tidy' a)) :
    Answered φ (k + 1) World.value (m.loadTidying tidy root source p a)
      (m'.loadTidying tidy' root source q b) := by
  unfold Machine.loadTidying
  rw [← hvar, hs]
  dsimp only
  -- The plan of the new environment has the names that are supplied.
  refine .bind (Related.newEnvironment .none (· ∈ s.supplied p.values)) hab ⟨_, _, rfl⟩
    fun {σ e f a₁ b₁} hle _ hab₁ he => ?_
  obtain ⟨he, houter, hallows⟩ := he
  refine .bind (Related.report _ _) hab₁ ⟨_, _, rfl⟩ fun {σ₂ _ _ a₂ b₂} hle₂ _ hab₂ _ => ?_
  have he₂ := hle₂.environment he
  have hplan₂ := hle₂.plan ⟨f, he⟩
  have hsupply := supply_rel (hprovided.imp fun _ _ => World.provided.mono
    (World.le_trans hle hle₂)) s.free
  have hallowed : ∀ x ∈ supply s.free p.values, (σ₂.plan e).allows x.1 := by
    intro x hx
    rw [hplan₂, hallows]
    exact List.mem_map_of_mem hx
  obtain ⟨x, -, hx, -, -⟩ := hab₂.environments.record he₂
  refine .bind (Related.createConstants he₂ hsupply hallowed) hab₂ ⟨(), createConstants_ok _ ⟨x, hx⟩⟩
    fun {σ₃ _ _ a₃ b₃} hle₃ _ hab₃ hbound => ?_
  have he₃ := hle₃.environment he₂
  have hplan₃ : σ₃.plan e = σ.plan e := (hle₃.plan ⟨f, he₂⟩).trans hplan₂
  have hfiling : σ₃.filing ⟨a₃.realms.size⟩
      = ⟨root, ⟨root.isExpression, p.noVar⟩, s.supplied p.values⟩ := by
    rw [hab₃.filing, hab₃.realms_size]
    exact hφ
  -- The realms are about the same analysis, which has found the names that they are given.
  have hrealm : Realm.Rel (hab₃.realmWorld e) ⟨a₃.realms.size⟩
      ⟨source, root, e, s.places, p.isTraced, []⟩ ⟨source, root, f, s.places, q.isTraced, []⟩ :=
    { source := rfl, root := rfl, scopes := rfl
      globals := he₃
      templates := .nil
      filed := (congrArg Filing.root hfiling).symm
      rules := by
        refine (congrArg (·.rules.expressionOnly) hfiling).trans ?_
        cases root <;> rfl
      entered := by
        intro place x hx
        refine mem_places_of_analyze hs (x := x) ?_
        have hrules := congrArg Filing.rules hfiling
        dsimp only at hrules
        rw [← hrules]
        exact hx
      filed_globals := (hab₃.globals_realmWorld e).symm
      outermost := by
        change (σ₃.plan e).outer = none
        rw [hplan₃, houter]
      supplied := by
        intro n
        change (σ₃.plan e).allows n ↔ n ∈ (σ₃.filing _).supplied
        rw [hplan₃, hallows, hfiling]
      bound := by
        intro n hn
        change (σ₃.plan e).allows n at hn
        rw [hplan₃, hallows] at hn
        obtain ⟨x, hx, rfl⟩ := List.mem_map.mp hn
        exact hbound x hx }
  have hpushed := hab₃.pushRealm hrealm
  have hcontext : Context.Rel (hab₃.realmWorld e) ⟨⟨a₃.realms.size⟩, e⟩ ⟨⟨b₃.realms.size⟩, f⟩ :=
    ⟨.inr ⟨rfl, rfl⟩, he₃⟩
  -- It is left to evaluate the root where the realm is.
  refine Related.concluding (Related.inContext (c := (_, _)) hcontext ?_) hpushed ht ht'
  refine (Roams.ofRelated ?_).imp fun _ hv => hv.2
  refine h.evaluateRoot hcontext (hab₃.globals_realmWorld e) (congrArg Filing.root hfiling) ?_
  have hrules : (hab₃.realmWorld e).filing ⟨a₃.realms.size⟩ = _ := hfiling
  rw [hrules]
  exact hgrammar

end Machine.Agree

end Scriptlet
