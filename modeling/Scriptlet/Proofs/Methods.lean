import Scriptlet.Agent.Property
import Scriptlet.Builtin.Arguments
import Scriptlet.Proofs.Primitives

/-!
# Functions, methods, templates and joined arrays

The object for a method is made when the method is first used.  If it is in reserve on both sides,
whether made or not, it corresponds from then on.

## Main definitions

* `World.callable` — corresponding objects that are functions.
* `Agent.Adopts` — an agent comes to have an object for a method.

## Main results

* `Agrees.adopt` — **adopted methods correspond, and nothing else changes**.
* `Related.method`, `Related.callable`, `Related.templateObject`, `Related.whileJoining`.
-/

namespace Scriptlet

open Eval

variable {φ : RealmId → Filing} {ρ : World} {K : Stack φ} {a b : Agent}

/-! ### Functions -/

/-- Corresponding objects that are functions. -/
def World.callable (ρ : World) (o p : ObjectId) : Prop := ρ.object o p ∧ ρ.isFunction o

theorem World.callable.mono {σ : World} (h : ρ ≤ σ) {o p : ObjectId} :
    ρ.callable o p → σ.callable o p :=
  fun ho => ⟨h.object ho.1, h.isFunction ho.2⟩

/-- A world in which an object is known to be a function extends one in which it is not. -/
theorem Agrees.extends_noteFunction (o : ObjectId) : Extends ρ a b (ρ.withFunction o) a b :=
  ⟨World.le_withFunction o, .of_eq rfl rfl rfl rfl, .of_eq rfl rfl rfl rfl⟩

/-- Corresponding values are functions on both sides or on neither. -/
theorem Agrees.function? (h : Agrees ρ K a b) {v w : Value} (hv : ρ.value v w) :
    ∃ σ, Extends ρ a b σ a b ∧ Agrees σ K a b ∧
      Option.Rel σ.callable (a.function? v) (b.function? w) := by
  cases hv with
  | @object o p hop =>
    have hf := (h.object_rel hop).isFunction
    simp only [Agent.function?]
    cases ho : (a.object o).isFunction with
    | false =>
      rw [ho] at hf
      rw [← hf]
      exact ⟨ρ, .refl ρ a b, h, .none⟩
    | true =>
      rw [ho] at hf
      rw [← hf]
      exact ⟨ρ.withFunction o, extends_noteFunction o, h.noteFunction ho,
        .some ⟨hop, .inr rfl⟩⟩
  | _ => exact ⟨ρ, .refl ρ a b, h, .none⟩

/-- Corresponding values can be called with `new` on both sides or on neither. -/
theorem Agrees.constructor? (h : Agrees ρ K a b) {v w : Value} (hv : ρ.value v w) :
    ∃ σ, Extends ρ a b σ a b ∧ Agrees σ K a b ∧
      Option.Rel σ.callable (a.constructor? v) (b.constructor? w) := by
  cases hv with
  | @object o p hop =>
    have hf := (h.object_rel hop).isConstructor
    simp only [Agent.constructor?]
    cases ho : (a.object o).isConstructor with
    | false =>
      rw [ho] at hf
      rw [← hf]
      exact ⟨ρ, .refl ρ a b, h, .none⟩
    | true =>
      rw [ho] at hf
      rw [← hf]
      have hfun : (a.object o).isFunction = true := by
        unfold Object.isConstructor at ho
        unfold Object.isFunction
        split at ho <;> simp_all
      exact ⟨ρ.withFunction o, extends_noteFunction o, h.noteFunction hfun,
        .some ⟨hop, .inr rfl⟩⟩
  | _ => exact ⟨ρ, .refl ρ a b, h, .none⟩

/-- Corresponding values are arrays on both sides or on neither. -/
theorem Agrees.array? (h : Agrees ρ K a b) {v w : Value} (hv : ρ.value v w) :
    Option.Rel ρ.object (a.array? v) (b.array? w) := by
  cases hv with
  | @object o p hop =>
    simp only [Agent.array?, (h.object_rel hop).isArray]
    split
    · exact .some hop
    · exact .none
  | _ => exact .none

theorem Agrees.elements (h : Agrees ρ K a b) {o p : ObjectId} (hop : ρ.object o p) :
    Elements.Rel ρ.value (a.elements o) (b.elements p) := by
  unfold Agent.elements
  obtain ⟨hx, hy⟩ | ⟨e, f, hx, hy, hef⟩ := Option.rel_cases (h.object_rel hop).elements?
  · rw [hx, hy]
    exact .ofLength 0
  · rw [hx, hy]
    exact hef

theorem Agrees.typeName (h : Agrees ρ K a b) {v w : Value} (hv : ρ.value v w) :
    a.typeName v = b.typeName w := by
  cases hv with
  | object hop => simp only [Agent.typeName, (h.object_rel hop).isFunction]
  | _ => rfl

/-- Computations that find something out about the states that they start from. -/
theorem Related.noting {γ δ : Type} {f : Agent → Eval γ} {g : Agent → Eval δ}
    {S : World → γ → δ → Prop}
    (h : ∀ a b, Agrees ρ K a b →
      ∃ σ, Extends ρ a b σ a b ∧ Agrees σ K a b ∧ Related σ K (f a) (g b) S) :
    Related ρ K (MonadState.get >>= f) (MonadState.get >>= g) S := by
  intro a b hab
  obtain ⟨σ, ext, hagree, hfg⟩ := h a b hab
  exact (hfg a b hagree).after ext

/-! ### Methods -/

/-- An agent comes to have an object for a method, outside of the given places: the one in reserve,
or a new one. -/
structure Agent.Adopts (a : Agent) (U : Territory) (m : Builtin) (o : ObjectId) (a' : Agent) :
    Prop where
  outside : ¬U.object o
  made : a'.objects[o.index]? = some (.ofKind (.builtin m))
  kept : ∀ {i : Nat} {x}, a.objects[i]? = some x → a'.objects[i]? = some x
  size : a'.objects = a.objects ∧ a.methodId? m = some o ∨
    o = ⟨a.objects.size⟩ ∧ a'.objects.size = a.objects.size + 1
  id : a'.methodId? m = some o
  ids : ∀ {n q}, a.methodId? n = some q → a'.methodId? n = some q
  others : ∀ {n}, n ≠ m → a'.methodId? n = a.methodId? n
  environments : a'.environments = a.environments
  realms : a'.realms = a.realms
  contexts : a'.contexts = a.contexts
  joining : a'.joining = a.joining

theorem Agent.methodId?_cons (a : Agent) (m n : Builtin) (o : ObjectId) :
    Agent.methodId? { a with methods := (m, o) :: a.methods } n
      = if m = n then some o else a.methodId? n := by
  unfold Agent.methodId?
  rw [List.find?_cons]
  by_cases h : m = n
  · rw [if_pos h]
    simp [h]
  · have hne : (m == n) = false := beq_false_of_ne h
    simp only [hne, if_neg h]

/-- A method whose object exists is that object. -/
theorem Eval.method_apply {m : Builtin} {o : ObjectId} (h : a.methodId? m = some o) :
    method m a = .ok (.object o) a := by
  unfold Agent.methodId? at h
  obtain ⟨p, hfind, hmethod⟩ | ⟨hnone, -⟩ := method_cases m a
  · rw [hfind] at h
    cases h
    exact hmethod
  · rw [hnone] at h
    cases h

/-- Using a method that is in reserve adopts it. -/
theorem Agent.Reserves.adopts {U : Territory} {m : Builtin} (h : a.Reserves U m)
    (hU : ∀ o, U.object o → o.index < a.objects.size) :
    ∃ o a', method m a = .ok (.object o) a' ∧ a.Adopts U m o a' := by
  obtain ⟨o, hfind, hmethod⟩ | ⟨hnone, hmethod⟩ := method_cases m a
  · have hid : a.methodId? m = some o := by
      unfold Agent.methodId?
      rw [hfind]
      rfl
    -- A method asked for before is the object made then, otherwise it is made now.
    obtain ⟨hout, hmade⟩ := h o hid
    exact ⟨o, a, hmethod, hout, hmade, id, .inl ⟨rfl, hid⟩, hid, id, fun _ => rfl, rfl, rfl, rfl, rfl⟩
  · have hid : a.methodId? m = none := by
      unfold Agent.methodId?
      rw [hnone]
      rfl
    refine ⟨⟨a.objects.size⟩, { a with
      objects := a.objects.push (.ofKind (.builtin m))
      methods := (m, ⟨a.objects.size⟩) :: a.methods }, hmethod, ?_⟩
    have hids : ∀ n, Agent.methodId? { a with
        objects := a.objects.push (.ofKind (.builtin m))
        methods := (m, ⟨a.objects.size⟩) :: a.methods } n
          = if m = n then some ⟨a.objects.size⟩ else a.methodId? n :=
      fun n => Agent.methodId?_cons a m n _
    exact
      { outside := fun ho => Nat.lt_irrefl _ (hU _ ho)
        made := Array.getElem?_push_size
        kept := fun hx => Agrees.getElem?_pushObject hx _
        size := .inr ⟨rfl, Array.size_push _⟩
        id := by rw [hids, if_pos rfl]
        ids := by
          intro n q hq
          rw [hids, if_neg]
          · exact hq
          · rintro rfl
            rw [hid] at hq
            cases hq
        others := by
          intro n hn
          rw [hids, if_neg fun h => hn h.symm]
        environments := rfl, realms := rfl, contexts := rfl, joining := rfl }

namespace Agent.Adopts

variable {U V : Territory} {m : Builtin} {o : ObjectId} {a' : Agent}

theorem object_eq (h : a.Adopts U m o a') {q : ObjectId} (hq : q.index < a.objects.size) :
    a'.object q = a.object q := by
  have hx := Array.getElem?_eq_getElem hq
  rw [Agent.object_eq_getD, Agent.object_eq_getD, h.kept hx, hx]

/-- Another method that is in reserve stays there. -/
theorem reserves (h : a.Adopts U m o a') (hV : ∀ q, V.object q → U.object q ∨ q = o)
    {n : Builtin} (hn : n ≠ m) (hr : a.Reserves U n) : a'.Reserves V n := by
  intro q hq
  rw [h.others hn] at hq
  obtain ⟨hout, hx⟩ := hr q hq
  refine ⟨fun hqV => ?_, h.kept hx⟩
  rcases hV q hqV with hqU | rfl
  · exact hout hqU
  · have hmade := h.made
    rw [h.kept hx] at hmade
    cases hmade
    exact hn rfl

theorem spares (h : a.Adopts U m o a') (hU : ∀ {q}, U.object q → V.object q)
    (hV : ∀ {q}, V.object q → U.object q ∨ q = o) (he : V.environment = U.environment)
    (hr : V.realm = U.realm) : Territory.Spares U V a a' where
  object_mono := hU
  environment_mono := by rw [he]; exact fun h => h
  realm_mono := by rw [hr]; exact fun h => h
  size := by
    rcases h.size with ⟨hs, -⟩ | ⟨-, hs⟩
    · exact Nat.le_of_eq (congrArg Array.size hs.symm)
    · rw [hs]
      exact Nat.le_succ _
  method := h.ids
  object := fun hx _ => h.kept hx
  object_new := by
    intro q hq
    rcases hV hq with hq | rfl
    · exact .inl hq
    · exact .inr (.inr ⟨m, h.id⟩)
  environment := by
    intro e x hx _
    rw [h.environments]
    exact hx
  environment_new := by rw [he]; exact .inl
  realm := by
    intro r x hx _
    rw [h.realms]
    exact hx
  realm_new := by rw [hr]; exact .inl

end Agent.Adopts

namespace Agrees

variable {m : Builtin} {o p : ObjectId} {a' b' : Agent}

theorem not_object_left (ha : a.Adopts ρ.left m o a') (q : ObjectId) : ¬ρ.object o q :=
  fun hq => ha.outside (World.left_object hq)

theorem not_object_right (hb : b.Adopts ρ.right m p b') (q : ObjectId) : ¬ρ.object q p :=
  fun hq => hb.outside (World.right_object hq)

/-- Nothing is in reserve, and methods are adopted by making them. -/
theorem size_of_adopts (h : Agrees ρ K a b) (ha : a.Adopts ρ.left m o a')
    (hb : b.Adopts ρ.right m p b') :
    (o = ⟨a.objects.size⟩ ∧ a'.objects.size = a.objects.size + 1) ∧
      p = ⟨b.objects.size⟩ ∧ b'.objects.size = b.objects.size + 1 := by
  constructor
  · rcases ha.size with ⟨hs, -⟩ | hnew
    · have hmade := ha.made
      rw [hs] at hmade
      have hlt := (Array.getElem?_eq_some_iff.mp hmade).1
      exact absurd (h.same _ hlt) (not_object_left ha _)
    · exact hnew
  · rcases hb.size with ⟨hs, -⟩ | hnew
    · have hmade := hb.made
      rw [hs] at hmade
      have hlt := (Array.getElem?_eq_some_iff.mp hmade).1
      rw [← h.size] at hlt
      exact absurd (h.same _ hlt) (not_object_right hb _)
    · exact hnew

/-- **Adopted methods correspond, and nothing else changes.** -/
theorem adopt (h : Agrees ρ K a b) (ha : a.Adopts ρ.left m o a') (hb : b.Adopts ρ.right m p b') :
    Agrees (ρ.withObject o p (not_object_left ha) (not_object_right hb)) K a' b' where
  object := by
    have hle := World.le_withObject (not_object_left ha) (not_object_right hb)
    rintro q r (hqr | ⟨rfl, rfl⟩)
    · obtain ⟨x, y, hx, hy, hxy⟩ := h.object hqr
      exact ⟨x, y, ha.kept hx, hb.kept hy, hxy.mono hle⟩
    · exact ⟨_, _, ha.made, hb.made, .ofKind (.builtin m)⟩
  function := by
    intro q hq
    have hf := h.function hq
    have hlt : q.index < a.objects.size := by
      by_contra hge
      rw [Agent.object_eq_getD, Array.getElem?_eq_none (Nat.le_of_not_lt hge)] at hf
      cases hf
    rw [ha.object_eq hlt]
    exact hf
  environments := by
    have hle := World.le_withObject (not_object_left ha) (not_object_right hb)
    rw [ha.environments, hb.environments]
    refine { h.environments with record := ?_ }
    intro e f hef
    obtain ⟨x, y, hx, hy, hxy⟩ := h.environments.record hef
    exact ⟨x, y, hx, hy, environmentRel_mono hle ⟨f, hef⟩ hxy.bound hxy⟩
  realm := by
    have hle := World.le_withObject (not_object_left ha) (not_object_right hb)
    rw [ha.realms, hb.realms]
    intro r s hrs
    obtain ⟨x, y, hx, hy, hxy⟩ := h.realm hrs
    exact ⟨x, y, hx, hy, hxy.mono hle ⟨s, hrs⟩⟩
  method := by
    intro n
    -- The method adopted is paired by the new pair; the others are as they were.
    by_cases hn : n = m
    · subst hn
      exact .inl ⟨o, p, ha.id, hb.id, .inr ⟨rfl, rfl⟩⟩
    · rcases h.method n with ⟨q, r, hq, hr, hqr⟩ | ⟨hl, hr⟩
      · exact .inl ⟨q, r, ha.ids hq, hb.ids hr, .inl hqr⟩
      · refine .inr ⟨ha.reserves ?_ hn hl, hb.reserves ?_ hn hr⟩
        · rintro q ⟨r, hqr | ⟨rfl, -⟩⟩
          · exact .inl ⟨r, hqr⟩
          · exact .inr rfl
        · rintro r ⟨q, hqr | ⟨-, rfl⟩⟩
          · exact .inl ⟨q, hqr⟩
          · exact .inr rfl
  contexts_left := by rw [ha.contexts]; exact h.contexts_left
  contexts_right := by rw [hb.contexts]; exact h.contexts_right
  contexts := fun c hc =>
    (h.contexts c hc).mono (World.le_withObject (not_object_left ha) (not_object_right hb))
  joining_left := by rw [ha.joining]; exact h.joining_left
  joining_right := by rw [hb.joining]; exact h.joining_right
  joining := fun q hq => .inl (h.joining q hq)
  realms_size := by rw [ha.realms]; exact h.realms_size
  filing := h.filing
  size := by
    obtain ⟨⟨-, hs⟩, -, hs'⟩ := h.size_of_adopts ha hb
    rw [hs, hs', h.size]
  same := by
    obtain ⟨⟨ho, hs⟩, hp, -⟩ := h.size_of_adopts ha hb
    intro i hi
    rw [hs] at hi
    rcases Nat.lt_succ_iff_lt_or_eq.mp hi with hlt | rfl
    · exact .inl (h.same i hlt)
    · exact .inr ⟨ho.symm, by rw [hp, h.size]⟩
  known := by
    rw [ha.realms]
    exact h.known

theorem extends_adopt (ha : a.Adopts ρ.left m o a') (hb : b.Adopts ρ.right m p b') :
    Extends ρ a b (ρ.withObject o p (not_object_left ha) (not_object_right hb)) a' b' where
  le := World.le_withObject _ _
  left := by
    refine ha.spares (V := (ρ.withObject o p _ _).left) ?_ ?_ rfl rfl
    · rintro q ⟨r, hqr⟩
      exact ⟨r, .inl hqr⟩
    · rintro q ⟨r, hqr | ⟨rfl, -⟩⟩
      · exact .inl ⟨r, hqr⟩
      · exact .inr rfl
  right := by
    refine hb.spares (V := (ρ.withObject o p _ _).right) ?_ ?_ rfl rfl
    · rintro r ⟨q, hqr⟩
      exact ⟨q, .inl hqr⟩
    · rintro r ⟨q, hqr | ⟨-, rfl⟩⟩
      · exact .inl ⟨q, hqr⟩
      · exact .inr rfl

end Agrees

namespace Related

/-- **The objects for a method correspond.** -/
theorem method (m : Builtin) :
    Related ρ K (Eval.method m) (Eval.method m) fun σ v w => σ.value v w := by
  intro a b hab
  rcases hab.method m with ⟨o, p, ho, hp, hop⟩ | ⟨hl, hr⟩
  · rw [method_apply ho, method_apply hp]
    exact .ok (.refl ρ a b) ⟨hab, .object hop⟩
  · obtain ⟨o, a', hrun, ha⟩ := hl.adopts fun _ ⟨_, hop⟩ => hab.lt_left hop
    obtain ⟨p, b', hrun', hb⟩ := hr.adopts fun _ ⟨_, hop⟩ => hab.lt_right hop
    rw [hrun, hrun']
    exact .ok (Agrees.extends_adopt ha hb) ⟨hab.adopt ha hb, .object (.inr ⟨rfl, rfl⟩)⟩

end Related

/-! ### Templates -/

namespace Agrees

variable {r s : RealmId} {f g : Realm → Realm}

theorem getElem?_modifyRealm (xs : Array Realm) (f : Realm → Realm) (r r' : RealmId) :
    (xs.modify r.index f)[r'.index]? = if r' = r then (xs[r'.index]?).map f else xs[r'.index]? := by
  rw [Array.getElem?_modify]
  by_cases h : r' = r
  · subst h
    rw [if_pos rfl, if_pos rfl]
  · have hi : r.index ≠ r'.index := fun hi => h (by cases r; cases r'; cases hi; rfl)
    rw [if_neg hi, if_neg h]

/-- Corresponding realms are changed alike. -/
theorem modifyRealm (h : Agrees ρ K a b) (hrs : ρ.realm r s)
    (hfg : ∀ {x y}, Realm.Rel ρ r x y → Realm.Rel ρ r (f x) (g y)) :
    Agrees ρ K { a with realms := a.realms.modify r.index f }
      { b with realms := b.realms.modify s.index g } := by
  refine { h with realm := ?_, realms_size := ?_, known := ?_ }
  · intro r' s' hrs'
    obtain ⟨x, y, hx, hy, hxy⟩ := h.realm hrs'
    rw [getElem?_modifyRealm, getElem?_modifyRealm, hx, hy]
    by_cases hr : r' = r
    · subst hr
      have hs : s' = s := ρ.realm_unique.2 hrs' hrs
      rw [if_pos rfl, if_pos hs]
      exact ⟨_, _, rfl, rfl, hfg hxy⟩
    · have hs : s' ≠ s := by
        rintro rfl
        exact hr (ρ.realm_unique.1 hrs' hrs)
      rw [if_neg hr, if_neg hs]
      exact ⟨x, y, rfl, rfl, hxy⟩
  · rw [Array.size_modify]
    exact h.realms_size
  · rw [Array.size_modify]
    exact h.known

theorem spares_modifyRealm {U : Territory} (hr : U.realm r) :
    Territory.Spares U U a { a with realms := a.realms.modify r.index f } :=
  { Territory.Spares.refl U a with
    realm := by
      intro r' x hx hr'
      have hne : r' ≠ r := by
        rintro rfl
        exact hr' hr
      rw [getElem?_modifyRealm, if_neg hne]
      exact hx }

theorem extends_modifyRealm (hrs : ρ.realm r s) :
    Extends ρ a b ρ { a with realms := a.realms.modify r.index f }
      { b with realms := b.realms.modify s.index g } :=
  ⟨World.le_refl ρ, spares_modifyRealm ⟨s, hrs⟩, spares_modifyRealm ⟨r, hrs⟩⟩

end Agrees

namespace Related

variable {c : Context × Context}

/-- **The arrays for a tagged template correspond.** -/
theorem templateObject (t : Template) :
    Related ρ (K.push c) (Eval.templateObject t) (Eval.templateObject t)
      fun σ o p => σ.object o p := by
  refine context.bind fun hle h => ?_
  obtain ⟨⟨rfl, rfl⟩, hc⟩ := h
  refine realm.bind fun hle hxy => ?_
  have hfound := List.find?_rel (p := fun p => p.1 == t.span.start)
    (q := fun p => p.1 == t.span.start) (fun p q hpq => by rw [hpq.1]) hxy.templates
  -- The realms are related, so both have kept the template's object or neither has.
  obtain ⟨h1, h2⟩ | ⟨⟨n, o⟩, ⟨n', p⟩, h1, h2, hop⟩ := Option.rel_cases hfound
  · rw [h1, h2]
    have hpieces : ∀ {ρ : World}, ρ.values
        (t.quasis.map fun q => ((q.value.map Value.text).getD .undefined))
        (t.quasis.map fun q => ((q.value.map Value.text).getD .undefined)) := by
      intro ρ
      refine List.forall₂_same.mpr fun v hv => ?_
      obtain ⟨q, -, rfl⟩ := List.mem_map.mp hv
      cases q.value <;> exact .refl rfl
    have hraw : ∀ {ρ : World}, ρ.values (t.quasis.map fun q => .ofString q.raw)
        (t.quasis.map fun q => .ofString q.raw) := by
      intro ρ
      refine List.forall₂_same.mpr fun v hv => ?_
      obtain ⟨q, -, rfl⟩ := List.mem_map.mp hv
      exact .refl rfl
    refine (allocateArray (.ofList hpieces)).bind fun hle₁ ho => ?_
    refine (allocateArray (.ofList hraw)).bind fun hle₂ hr => ?_
    refine (modifyObject hr (fun h => h.freeze) Object.KeepsFunctions.freeze).bind fun hle₃ _ => ?_
    have ho' := hle₃.object (hle₂.object ho)
    refine (modifyObject ho' (fun h => ?_) fun x => ?_).bind fun hle₄ _ => ?_
    · refine (h.withProperties ?_).freeze
      rw [Array.toList_push, Array.toList_push]
      exact List.rel_append h.properties
        (.cons (Object.Rel.hidden _ (.object (hle₃.object hr))) .nil)
    · exact Object.KeepsFunctions.freeze _
    · have hrealm := hle₄.realm (hle₃.realm (hle₂.realm (hle₁.realm (hle.realm hc.realm))))
      refine (of_ok (R := fun _ _ _ => True) (fun _ => rfl) (fun _ => rfl) fun a b hab => ?_).bind
        fun hle₅ _ => pure (hle₅.object (hle₄.object ho'))
      refine ⟨_, Agrees.extends_modifyRealm hrealm, hab.modifyRealm hrealm fun hxy => ?_, trivial⟩
      exact { hxy with templates := .cons ⟨rfl, hle₄.object ho'⟩ hxy.templates }
  · rw [h1, h2]
    exact pure hop.2

end Related

/-! ### Joined arrays -/

/-- The texts of an array are being put together. -/
def Stack.join {φ : RealmId → Filing} (o p : ObjectId) (K : Stack φ) : Stack φ :=
  { K with joining := (o, p) :: K.joining }

/-- Other arrays are being put together. -/
theorem Agrees.replaceJoining (h : Agrees ρ K a b) {L : Stack φ} (hc : L.contexts = K.contexts)
    (hr : L.realms = K.realms) (hj : ∀ o ∈ L.joining, ρ.object o.1 o.2) :
    Agrees ρ L { a with joining := L.joining.map Prod.fst }
      { b with joining := L.joining.map Prod.snd } :=
  { h with
    contexts_left := by rw [hc]; exact h.contexts_left
    contexts_right := by rw [hc]; exact h.contexts_right
    contexts := by rw [hc]; exact h.contexts
    joining_left := rfl
    joining_right := rfl
    joining := hj
    realms_size := by rw [hr]; exact h.realms_size }

/-- Corresponding arrays are being put together on both sides or on neither. -/
theorem Agrees.isJoining (h : Agrees ρ K a b) {o p : ObjectId} (hop : ρ.object o p) :
    a.joining.contains o = b.joining.contains p := by
  rw [h.joining_left, h.joining_right, Bool.eq_iff_iff, List.contains_iff_mem, List.contains_iff_mem,
    List.mem_map, List.mem_map]
  constructor
  · rintro ⟨q, hq, rfl⟩
    exact ⟨q, hq, ρ.object_unique.2 (h.joining q hq) hop⟩
  · rintro ⟨q, hq, rfl⟩
    exact ⟨q, hq, ρ.object_unique.1 (h.joining q hq) hop⟩

/-- **Computations while arrays are being put together are related.** -/
theorem Related.whileJoining {α β : Type} {p : Eval α} {q : Eval β} {R : World → α → β → Prop}
    {o o' : ObjectId} (ho : ρ.object o o') (h : Related ρ (K.join o o') p q R) :
    Related ρ K (do modify fun a => { a with joining := o :: a.joining }
                    ending p fun a => { a with joining := a.joining.erase o })
      (do modify fun b => { b with joining := o' :: b.joining }
          ending q fun b => { b with joining := b.joining.erase o' }) R := by
  intro a b hab
  have hpush : Agrees ρ (K.join o o') { a with joining := o :: a.joining }
      { b with joining := o' :: b.joining } := by
    rw [hab.joining_left, hab.joining_right]
    exact hab.replaceJoining (L := K.join o o') rfl rfl
      (List.forall_mem_cons.mpr ⟨ho, hab.joining⟩)
  have hpop : ∀ {σ a b}, Agrees σ (K.join o o') a b →
      Extends σ a b σ { a with joining := a.joining.erase o }
          { b with joining := b.joining.erase o' } ∧
        Agrees σ K { a with joining := a.joining.erase o }
          { b with joining := b.joining.erase o' } := by
    intro σ a b hab
    refine ⟨.of_eq ⟨rfl, rfl⟩ ⟨rfl, rfl⟩ ⟨rfl, rfl⟩ ⟨rfl, rfl⟩, ?_⟩
    rw [hab.joining_left, hab.joining_right]
    simp only [Stack.join, List.map_cons, List.erase_cons_head]
    exact hab.replaceJoining (L := K) rfl rfl fun q hq => hab.joining q (List.mem_cons_of_mem _ hq)
  refine .step rfl rfl (.of_eq ⟨rfl, rfl⟩ ⟨rfl, rfl⟩ ⟨rfl, rfl⟩ ⟨rfl, rfl⟩)
    (.ending (h _ _ hpush) ?_ ?_)
  · rintro τ a' b' x y - ⟨hagree, hR⟩
    exact ⟨(hpop hagree).1, (hpop hagree).2, hR⟩
  · rintro τ a' b' - hagree
    exact hpop hagree

end Scriptlet
