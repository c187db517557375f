import Scriptlet.Proofs.Destructuring
import Scriptlet.Proofs.Entries

/-!
# Copied properties

An object literal with a spread value defines what the value offers, assignment from a value sets it, and
an object made from the entries of the value has it from the pairs of an array.  The three give the same
properties in the same order, but that entries have no symbols and that there are none of a value that
stands for the lack of one.  What an object pattern leaves over is a copy too, from which the keys are
excluded that its other properties have named; those have been converted before, and any code may have
run in between.

## Main definitions

* `Eval.LeavesObjects` — computations that leave the objects as they are.
* `Machine.takeProperty`, `Machine.takeTarget` — what a pattern does with one property of a value.

## Main results

* `Machine.assignKeys_apply`, `Machine.assign_apply` — **properties are looked up again one by one**, and
  assigning them to an object without properties adds them all.
* `value_spread` — **an object literal that copies a value** has what the value offers.
* `Machine.bindPattern_rest`, `Machine.assignTarget_rest` — **patterns leave over what their properties have
  not taken**.
* `copies_agree` — **the ways of copying a value agree**.
-/

namespace Scriptlet

open Eval

/-- The name of a property that is assigned to a part of a pattern. -/
def TargetProperty.propertyName : TargetProperty → PropertyName
  | .shorthand _ name _ => .fixed (Text.ofString name)
  | .named name _ => name

/-! ### Assigned properties -/

namespace Machine

variable {m : Machine} {a : Agent} {t : ObjectId} {es : List (PropertyKey × Value)}

theorem assignEntries_eq (m : Machine) (t : ObjectId) (es : List (PropertyKey × Value)) :
    m.assignEntries t es = es.forM fun p => m.assignOn t p.1 p.2 := by
  induction es with
  | nil => rfl
  | cons p es ih =>
    rw [assignEntries, ih]
    rfl

theorem assignKeys_cons (m : Machine) (t source : ObjectId) (k : PropertyKey) (ks : List PropertyKey) :
    m.assignKeys t source (k :: ks) a = (match a.offered? (.object source) k with
      | some v => (m.assignOn t k v >>= fun _ => m.assignKeys t source ks) a
      | none => m.assignKeys t source ks a) := by
  rw [assignKeys, bind_ok (object_apply source a), Agent.offered?]
  cases (a.object source).ownProperty? k with
  | none => rfl
  | some p => cases hp : p.isEnumerable <;> simp [hp]

/-- **Properties are looked up again one by one**, and found to be what they were. -/
theorem assignKeys_apply (m : Machine) {source : ObjectId} (hne : source ≠ t) (ht : t.index < a.objects.size)
    (hobject : a.object t = .holding es) {ks : List PropertyKey} {fs : List (PropertyKey × Value)}
    (hfs : fs = ks.filterMap fun k => (a.offered? (.object source) k).map (k, ·))
    (hnodup : ((es ++ fs).map Prod.fst).Nodup) :
    m.assignKeys t source ks a = (fs.forM fun p => m.assignOn t p.1 p.2) a := by
  -- on the keys that are still to be read; the target has the properties of the ones before, and the
  -- source, which is another object, is as it was
  induction ks generalizing a es fs with
  | nil =>
    rw [hfs]
    rfl
  | cons k ks ih =>
    rw [assignKeys_cons]
    cases hv : a.offered? (.object source) k with
    | none =>
      rw [List.filterMap_cons, hv] at hfs
      exact ih ht hobject hfs hnodup
    | some v =>
      rw [List.filterMap_cons, hv] at hfs
      dsimp only [Option.map_some] at hfs ⊢
      subst hfs
      rw [List.append_cons] at hnodup
      have hadd := adds_assignOn m t a es k v ht hobject (not_mem_of_nodup hnodup)
      have hsame : (a.put t (.holding (es ++ [(k, v)]))).object source = a.object source :=
        Agent.object_put_of_ne hne _
      have hrest := ih (a := a.put t (.holding (es ++ [(k, v)]))) ((a.size_put t _).symm ▸ ht)
        (Agent.object_put ht _) (by simp only [Agent.offered?, hsame]) hnodup
      change _ = (m.assignOn t k v >>= fun _ => List.forM _ _) a
      rw [bind_ok hadd, bind_ok hadd, hrest]

/-- **Assigning the properties of a value to an object without properties** adds them all. -/
theorem assign_apply (m : Machine) (ha : a.IsKeyed) (ht : t.index < a.objects.size)
    (hempty : a.object t = .empty) (v : Value) :
    m.objectFunction .assign [.object t, v] a = .ok (.object t) (a.put t (.holding (a.offered v))) := by
  -- What a source offers are its keys with some left out, and no key is offered twice.
  have hnodup : ((a.offered v).map Prod.fst).Nodup := by
    have hall := Agent.nodup_offered ha v fun _ => true
    rwa [List.filter_true] at hall
  have hnone : a.object t = .holding [] := hempty
  have hfill : ((a.offered v).forM fun p => m.assignOn t p.1 p.2) a
      = .ok () (a.put t (.holding (a.offered v))) :=
    (adds_assignOn m t).forM ht hnone hnodup
  have hsources : m.assignSources t [v] a = .ok () (a.put t (.holding (a.offered v))) := by
    cases v with
    | object source =>
      have hkeys : m.assignKeys t source (a.object source).ownKeys a
          = .ok () (a.put t (.holding (a.offered (.object source)))) := by
        -- an object without properties has none to give to itself
        by_cases hne : source = t
        · have hkeys : Object.empty.ownKeys = [] :=
            @Object.ownKeys_holding [] List.nodup_nil (PropertyKey.grouped_range 0)
          have hself : a.put t .empty = a := hempty ▸ Agent.put_self ht
          rw [Agent.offered, Agent.sourceKeys, hne, hempty, hkeys]
          exact congrArg (EStateM.Result.ok ()) hself.symm
        · exact (m.assignKeys_apply hne ht hnone rfl hnodup).trans hfill
      change (object source >>= fun o => m.assignKeys t source o.ownKeys >>= fun _ =>
        m.assignSources t []) a = _
      rw [bind_ok (object_apply source a), bind_ok hkeys]
      rfl
    | _ =>
      change (copied _ >>= fun es => m.assignEntries t es >>= fun _ => m.assignSources t []) a = _
      rw [bind_ok (Agent.copied_apply _ a), assignEntries_eq, bind_ok hfill]
      rfl
  change (m.assignSources t [v] >>= fun _ => pure (Value.object t)) a = _
  rw [bind_ok hsources]
  rfl

end Machine

/-! ### Object literals -/

/-- A result of the computation leaves the objects as they are. -/
def Eval.LeavesObjects {α : Type} (p : Eval α) : Prop := ∀ a x b, p a = .ok x b → b.objects = a.objects

namespace Eval.LeavesObjects

variable {α β : Type} {p : Eval α} {f : α → Eval β}

theorem pure (x : α) : LeavesObjects (Pure.pure x : Eval α) := fun _ _ _ h => by
  cases h
  rfl

theorem get : LeavesObjects (MonadState.get : Eval Agent) := fun _ _ _ h => by
  cases h
  rfl

theorem throw (i : Interrupt) : LeavesObjects (MonadExcept.throw i : Eval α) := nofun

theorem raise (kind : ErrorKind) (message : String) : LeavesObjects (raise kind message : Eval α) := nofun

theorem bind (hp : LeavesObjects p) (hf : ∀ x, LeavesObjects (f x)) : LeavesObjects (p >>= f) :=
  fun a _ _ h => by
    obtain ⟨x, c, hx, hrest⟩ := bind_eq_ok h
    exact (hf x c _ _ hrest).trans (hp a x c hx)

theorem context : LeavesObjects context := by
  refine get.bind fun a => ?_
  split
  · exact pure _
  · exact throw _

theorem realmAt (r : RealmId) : LeavesObjects (realmAt r) := by
  refine get.bind fun a => ?_
  split
  · exact pure _
  · exact throw _

theorem record (e : Event) : LeavesObjects (record e) := by
  refine context.bind fun c => (realmAt c.realm).bind fun r => ?_
  split
  · intro a x b h
    cases h
    rfl
  · exact pure _

theorem readVariable (e : EnvironmentId) (name : String) : LeavesObjects (readVariable e name) := by
  have henvironment : LeavesObjects (environmentAt e) := by
    refine get.bind fun a => ?_
    split
    · exact pure _
    · exact throw _
  refine henvironment.bind fun x => ?_
  split
  · exact pure _
  · exact raise _ _

/-- **Looking up a variable changes no object.** -/
theorem identifier (n : Nat) (s : Span) (name : String) :
    LeavesObjects ((Machine.ofDepth n).expression (.identifier s name)) := by
  cases n with
  | zero => exact throw _
  | succ n =>
    change LeavesObjects ((Machine.ofDepth n).evaluateExpression (.identifier s name))
    rw [Machine.evaluateExpression_eq fun _ => rfl]
    refine (record _).bind fun _ => ?_
    cases n with
    | zero => exact nofun
    | succ n =>
      change LeavesObjects (Eval.resolve name >>= readReference)
      unfold Eval.resolve
      simp only [bind_assoc]
      refine (context.bind fun c => pure _).bind fun e => get.bind fun a => ?_
      split
      · rw [pure_bind]
        exact readVariable _ _
      · rw [pure_bind]
        exact raise _ _
      · exact nofun

end Eval.LeavesObjects

/-- **An object literal that copies a value** has what the value offers. -/
theorem value_spread (m : Machine) {a b : Agent} {t : ObjectId} {v : Value} (hb : b.IsKeyed)
    (ht : t.index < b.objects.size) (hempty : b.object t = .empty) (hnew : t = ⟨a.objects.size⟩) (s : Span)
    {e : Expr} (he : m.expression e (a.withNew .empty) = .ok v b) :
    m.value (.object s [.spread e]) a = .ok (.object t) (b.put t (.holding (b.offered v))) := by
  have hcopy := copyProperties_apply hb ht hempty v []
  have hall : ((b.offered v).filter fun p => !([] : List PropertyKey).contains p.1) = b.offered v :=
    List.filter_true _
  rw [hall] at hcopy
  subst hnew
  have hobject : emptyObject a = .ok ⟨a.objects.size⟩ (a.withNew .empty) := rfl
  change (emptyObject >>= fun o => (m.expression e >>= fun v => copyProperties o v [] >>= fun _ => pure ())
    >>= fun _ => pure (Value.object o)) a = _
  rw [bind_ok hobject, bind_assoc, bind_ok he, bind_assoc, bind_ok hcopy]
  rfl

/-! ### What patterns leave over -/

namespace Machine

variable {m : Machine} {a b c : Agent} {v : Value} {e : Option EnvironmentId} {ks : List PropertyKey}

/-- Gives one property of a value to a pattern; the key of the property. -/
def takeProperty (m : Machine) (e : Option EnvironmentId) (v : Value) (p : PatternProperty) :
    Eval PropertyKey := do
  let k ← m.nameKey p.name
  m.run (.bind p.value (← getOf v k) e)
  return k

/-- Assigns one property of a value to a part of a pattern; the key of the property. -/
def takeTarget (m : Machine) (v : Value) (p : TargetProperty) : Eval PropertyKey := do
  match p with
  | .shorthand s name init =>
    let r ← m.name s name
    let w ← getOf v name
    match init with
    | some e =>
      if w.isUndefined then m.writeReference r (← m.named e name) else m.writeReference r w
    | none => m.writeReference r w
    return name
  | .named name e =>
    let k ← m.nameKey name
    let r ← m.targetReference? e.target
    m.assignPart e r (← getOf v k)
    return k

/-- Assigns the properties of a value to the parts of a pattern; their keys, and the place for what is
left over. -/
def takeTargets (m : Machine) (v : Value) (ps : List TargetProperty) (t : Target) :
    Eval (List PropertyKey × Option Reference) := do
  let ks ← ps.mapM (m.takeTarget v)
  return (ks, ← m.targetReference? t)

/-- The properties of a pattern are taken one after the other. -/
theorem bindProperties_eq (m : Machine) (e : Option EnvironmentId) (v : Value) (ps : List PatternProperty)
    (keys : List PropertyKey) : m.bindProperties e v ps keys
      = (do return (← ps.mapM (m.takeProperty e v)).reverse ++ keys) := by
  induction ps generalizing keys with
  | nil => rfl
  | cons p ps ih =>
    simp only [bindProperties, takeProperty, ih, List.mapM_cons, bind_assoc, pure_bind, List.reverse_cons,
      List.append_assoc, List.singleton_append]

theorem assignProperties_eq (m : Machine) (v : Value) (ps : List TargetProperty) (keys : List PropertyKey) :
    m.assignProperties v ps keys = (do return (← ps.mapM (m.takeTarget v)).reverse ++ keys) := by
  induction ps generalizing keys with
  | nil => rfl
  | cons p ps ih =>
    cases p with
    | shorthand s name init =>
      cases init with
      | none =>
        simp only [assignProperties, takeTarget, ih, List.mapM_cons, bind_assoc, pure_bind, List.reverse_cons,
          List.append_assoc, List.singleton_append]
      | some e =>
        simp only [assignProperties, takeTarget, ih, List.mapM_cons, bind_assoc, pure_bind, List.reverse_cons,
          List.append_assoc, List.singleton_append]
        refine bind_congr fun r => bind_congr fun w => ?_
        split
        · simp only [bind_assoc, pure_bind]
        · simp only [bind_assoc, pure_bind]
    | named name e =>
      simp only [assignProperties, takeTarget, ih, List.mapM_cons, bind_assoc, pure_bind, List.reverse_cons,
        List.append_assoc, List.singleton_append]

end Machine

/-- **What is left over is a new object** with the properties that have not been taken. -/
theorem copyNew_apply {α : Type} {b : Agent} (hb : b.IsKeyed) (v : Value) (excluded : List PropertyKey)
    (f : ObjectId → Eval α) : (do
      let id ← emptyObject
      copyProperties id v excluded
      f id) b = f ⟨b.objects.size⟩
        (b.withNew (.holding ((b.offered v).filter fun p => !excluded.contains p.1))) := by
  have hempty : emptyObject b = .ok ⟨b.objects.size⟩ (b.withNew .empty) := rfl
  have hlt : b.objects.size < (b.withNew .empty).objects.size := Array.size_push .. ▸ Nat.lt_succ_self _
  have hcopy := copyProperties_apply (hb.withNew Object.isKeyed_empty) (t := ⟨b.objects.size⟩) hlt
    (b.object_withNew _) v excluded
  rw [b.put_withNew, b.offered_withNew] at hcopy
  rw [bind_ok hempty, bind_ok hcopy]

namespace Machine

variable {m : Machine} {a b c : Agent} {v : Value} {e : Option EnvironmentId} {ks : List PropertyKey}

/-- The properties that are left over when some have been taken, in whatever order these are. -/
theorem offered_left (b : Agent) (v : Value) (ks : List PropertyKey) :
    ((b.offered v).filter fun p => !(ks.reverse ++ []).contains p.1)
      = (b.offered v).filter fun p => !ks.contains p.1 := by
  simp only [List.append_nil, List.contains_reverse]

theorem requireParts_apply (hv : v.isNullish = false) (a : Agent) : requireParts v a = .ok () a := by
  unfold requireParts
  rw [hv]
  rfl

theorem bindPattern_object (m : Machine) (ps : List PatternProperty) (p : Pattern) (v : Value)
    (e : Option EnvironmentId) : m.bindPattern (.object ps (some p)) v e = (do
      requireParts v
      let ks ← ps.mapM (m.takeProperty e v)
      let id ← emptyObject
      copyProperties id v (ks.reverse ++ [])
      m.run (.bind p (.object id) e)) := by
  change (requireParts v >>= fun _ => m.bindProperties e v ps [] >>= fun keys => emptyObject >>= fun id =>
    copyProperties id v keys >>= fun _ => m.run (.bind p (.object id) e)) = _
  simp only [bindProperties_eq, bind_assoc, pure_bind]

theorem assignTarget_object (m : Machine) (ps : List TargetProperty) (t : Target) (v : Value) :
    m.assignTarget (.object ps (some t)) v = (do
      requireParts v
      let (ks, r) ← m.takeTargets v ps t
      let id ← emptyObject
      copyProperties id v (ks.reverse ++ [])
      m.assignAt t r (.object id)) := by
  change (requireParts v >>= fun _ => m.assignProperties v ps [] >>= fun keys =>
    m.targetReference? t >>= fun r => emptyObject >>= fun id => copyProperties id v keys >>= fun _ =>
      m.assignAt t r (.object id)) = _
  simp only [assignProperties_eq, takeTargets, bind_assoc, pure_bind]

/-- **A pattern that declares names** leaves over what its properties have not taken. -/
theorem bindPattern_rest (hv : v.isNullish = false) {ps : List PatternProperty}
    (h : ps.mapM (m.takeProperty e v) a = .ok ks b) (hb : b.IsKeyed) (p : Pattern) :
    m.bindPattern (.object ps (some p)) v e a = m.run (.bind p (.object ⟨b.objects.size⟩) e)
      (b.withNew (.holding ((b.offered v).filter fun q => !ks.contains q.1))) := by
  rw [bindPattern_object, bind_ok (requireParts_apply hv a), bind_ok h, copyNew_apply hb, offered_left]

/-- **A pattern that assigns** leaves over what its properties have not taken. -/
theorem assignTarget_rest (hv : v.isNullish = false) {ps : List TargetProperty} {t : Target}
    {r : Option Reference} (h : m.takeTargets v ps t a = .ok (ks, r) b) (hb : b.IsKeyed) :
    m.assignTarget (.object ps (some t)) v a = m.assignAt t r (.object ⟨b.objects.size⟩)
      (b.withNew (.holding ((b.offered v).filter fun q => !ks.contains q.1))) := by
  rw [assignTarget_object, bind_ok (requireParts_apply hv a), bind_ok h]
  dsimp only
  rw [copyNew_apply hb, offered_left]

/-- The key that is not left over is the one that the name of the property stands for. -/
theorem takeProperty_key {p : PatternProperty} {k : PropertyKey} (h : m.takeProperty e v p a = .ok k b) :
    ∃ c, m.nameKey p.name a = .ok k c := by
  obtain ⟨k', c, hk, h⟩ := bind_eq_ok h
  obtain ⟨w, d, -, h⟩ := bind_eq_ok h
  obtain ⟨_, f, -, h⟩ := bind_eq_ok h
  cases h
  exact ⟨c, hk⟩

theorem takeTarget_key {p : TargetProperty} {k : PropertyKey} (h : m.takeTarget v p a = .ok k b) :
    ∃ c, m.nameKey p.propertyName a = .ok k c := by
  cases p with
  | shorthand s name init =>
    obtain ⟨r, c, -, h⟩ := bind_eq_ok h
    obtain ⟨w, d, -, h⟩ := bind_eq_ok h
    -- Whatever is written in between, the key that is given in the end is the name.
    have hgives : ∀ p : Eval Unit, (p >>= fun _ => pure (name : PropertyKey)) d = .ok k b →
        k = (name : PropertyKey) := fun p h => by
      obtain ⟨_, f, -, h⟩ := bind_eq_ok h
      cases h
      rfl
    have hk : k = (name : PropertyKey) := by
      cases init with
      | none => exact hgives _ h
      | some e =>
        dsimp only at h
        split at h
        · rw [← bind_assoc] at h
          exact hgives _ h
        · exact hgives _ h
    exact ⟨a, hk ▸ rfl⟩
  | named name e =>
    obtain ⟨k', c, hk, h⟩ := bind_eq_ok h
    obtain ⟨r, d, -, h⟩ := bind_eq_ok h
    obtain ⟨w, d, -, h⟩ := bind_eq_ok h
    obtain ⟨_, f, -, h⟩ := bind_eq_ok h
    cases h
    exact ⟨c, hk⟩

end Machine

/-- The keys of objects stay in order while properties are taken. -/
theorem isKeyed_takeProperty {n : Nat} {a b : Agent} (ha : a.IsKeyed) {e : Option EnvironmentId} {v : Value}
    {ps : List PatternProperty} {ks : List PropertyKey}
    (h : ps.mapM ((Machine.ofDepth n).takeProperty e v) a = .ok ks b) : b.IsKeyed := by
  have hmoving : Moving ((Machine.ofDepth n).bindProperties e v ps []) :=
    Law.bindProperties (Machine.obeys_ofDepth keeping.toGeneralLaw n) v []
      (fun p v => keeping.ofDepth n (.bind p v e)) ps
  have hafter : ((Machine.ofDepth n).bindProperties e v ps []).after a = b := by
    rw [Machine.bindProperties_eq]
    exact after_ok (bind_ok h)
  exact hafter ▸ (hmoving a).isKeyed ha

theorem isKeyed_takeTargets {n : Nat} {a b : Agent} (ha : a.IsKeyed) {v : Value} {ps : List TargetProperty}
    {ks : List PropertyKey} {t : Target} {r : Option Reference}
    (h : (Machine.ofDepth n).takeTargets v ps t a = .ok (ks, r) b) : b.IsKeyed := by
  have hm := Machine.obeys_ofDepth keeping.toGeneralLaw n
  have hmoving : Moving ((Machine.ofDepth n).assignProperties v ps [] >>= fun _ =>
      (Machine.ofDepth n).targetReference? t) :=
    keeping.bind (Law.assignProperties hm v [] (Machine.assigns_ofDepth keeping.toGeneralLaw n) ps)
      fun _ => Law.targetReference? hm t
  have hafter : ((Machine.ofDepth n).assignProperties v ps [] >>= fun _ =>
      (Machine.ofDepth n).targetReference? t).after a = b := by
    obtain ⟨ks', c, hks, h⟩ := bind_eq_ok h
    obtain ⟨r', d, hr, h⟩ := bind_eq_ok h
    cases h
    rw [Machine.assignProperties_eq, bind_assoc]
    exact after_ok ((bind_ok hks).trans hr)
  exact hafter ▸ (hmoving a).isKeyed ha

/-- **The ways of copying a value agree.**  Copying into an object without properties never fails, whatever
is excluded.  Without exclusions an object literal, the assignment to a new object, and the object made from
the entries have the same properties under texts in the same order; of undefined and null there are no
entries.  A variable can be evaluated after the new object has been made.  What a pattern leaves over are the
properties whose keys it has not taken, and the key of a property is what its name stands for when it is
taken.  Objects have their keys in order wherever code runs. -/
theorem copies_agree :
    (∀ (b : Agent) (t : ObjectId) (v : Value), b.IsKeyed → t.index < b.objects.size → b.object t = .empty →
      (∀ excluded : List PropertyKey, ∃ x : Object, x.Copies b v (fun k => !excluded.contains k) ∧
        copyProperties t v excluded b = .ok () (b.put t x)) ∧
      ∃ x y : Object, x.Copies b v (fun _ => true) ∧ y.Copies b v (fun k => !k.isSymbol) ∧
        y.ownKeys = x.ownKeys.filter (fun k => !k.isSymbol) ∧
        (∀ k, k.isSymbol = false → y.ownProperty? k = x.ownProperty? k) ∧
        ∀ m : Machine,
          (∀ (a : Agent) (s : Span) (e : Expr), t = ⟨a.objects.size⟩ →
            m.expression e (a.withNew .empty) = .ok v b →
            m.value (.object s [.spread e]) a = .ok (.object t) (b.put t x)) ∧
          m.objectFunction .assign [.object t, v] b = .ok (.object t) (b.put t x) ∧
          (v.isNullish = true → m.objectFunction .entries [v] b
            = raise .typeError "Cannot convert undefined or null to object" b) ∧
          (v.isNullish = false → y.ownKeys.length ≤ maxArrayLength → y.ownKeys.length < m.fuel →
            ∃ news, (do m.objectFunction .fromEntries [← m.objectFunction .entries [v]]) b
              = .ok (.object ⟨b.objects.size + news.length⟩) ((b.adding news).withNew y))) ∧
    (∀ (n : Nat) (a b : Agent) (s : Span) (name : String) (v : Value), a.IsKeyed →
      (Machine.ofDepth n).expression (.identifier s name) (a.withNew .empty) = .ok v b →
      b.IsKeyed ∧ a.objects.size < b.objects.size ∧ b.object ⟨a.objects.size⟩ = .empty) ∧
    (∀ (n : Nat) (a : Agent) (v : Value), a.IsKeyed → v.isNullish = false →
      let m := Machine.ofDepth n
      (∀ (e : Option EnvironmentId) (ps : List PatternProperty) (p : Pattern),
        (∀ i b, ps.mapM (m.takeProperty e v) a = .error i b →
          m.bindPattern (.object ps (some p)) v e a = .error i b) ∧
        ∀ ks b, ps.mapM (m.takeProperty e v) a = .ok ks b →
          ∃ x : Object, x.Copies b v (fun k => !ks.contains k) ∧
            m.bindPattern (.object ps (some p)) v e a
              = m.run (.bind p (.object ⟨b.objects.size⟩) e) (b.withNew x)) ∧
      ∀ (ps : List TargetProperty) (t : Target),
        (∀ i b, m.takeTargets v ps t a = .error i b → m.assignTarget (.object ps (some t)) v a = .error i b) ∧
        ∀ ks r b, m.takeTargets v ps t a = .ok (ks, r) b →
          ∃ x : Object, x.Copies b v (fun k => !ks.contains k) ∧
            m.assignTarget (.object ps (some t)) v a
              = m.assignAt t r (.object ⟨b.objects.size⟩) (b.withNew x)) ∧
    (∀ (m : Machine) (a b : Agent) (v : Value) (k : PropertyKey),
      (∀ e p, m.takeProperty e v p a = .ok k b → ∃ c, m.nameKey p.name a = .ok k c) ∧
      ∀ p, m.takeTarget v p a = .ok k b → ∃ c, m.nameKey p.propertyName a = .ok k c) ∧
    (∀ (n : Nat) {α : Type} (t : Task α) (a : Agent), a.IsKeyed → ((Task.run n t).after a).IsKeyed) ∧
    ∀ (n : Nat) (isVerbose : Bool) (requests : List (Request × Tidying)),
      (Agent.ofRequests n isVerbose requests).IsKeyed := by
  refine ⟨fun b t v hb ht hempty => ⟨fun excluded => ?_, ?_⟩, fun n a b s name v ha hv => ?_,
    fun n a v ha hv => ⟨fun e ps p => ⟨fun i b h => ?_, fun ks b h => ?_⟩,
      fun ps t => ⟨fun i b h => ?_, fun ks r b h => ?_⟩⟩,
    fun m a b v k => ⟨fun e p => Machine.takeProperty_key, fun p => Machine.takeTarget_key⟩,
    fun n α t a ha => (moves_run n t a).isKeyed ha, isKeyed_ofRequests⟩
  -- copies into objects that are there
  · exact ⟨_, Agent.copies_holding hb v _, copyProperties_apply hb ht hempty v excluded⟩
  · have hx := Agent.copies_offered hb v
    have hy := Agent.copies_holding hb v fun k => !k.isSymbol
    have hlength : (Object.holding ((b.offered v).filter fun p => !p.1.isSymbol)).ownKeys.length
        = (textual (b.offered v)).length := by
      rw [Agent.ownKeys_offered hb v fun k => !k.isSymbol, ← map_textual, List.length_map, List.length_map]
    refine ⟨_, _, hx, hy, (hx.restrict hy).1, fun k hk => (hx.restrict hy).2 k (by rw [hk]; rfl), fun m =>
      ⟨fun a s e hnew he => value_spread m hb ht hempty hnew s he, m.assign_apply hb ht hempty v, fun hv => ?_,
        fun hv hfits hfuel => ?_⟩⟩
    · cases v with
      | undefined | null => rfl
      | _ => cases hv
    · rw [hlength] at hfits hfuel
      exact fromEntries_entries m hb hv hfits hfuel
  -- a new object while a variable is looked up
  · have hobjects : b.objects = a.objects.push .empty := Eval.LeavesObjects.identifier n s name _ _ _ hv
    have hkeyed : (a.withNew .empty).IsKeyed := ha.withNew Object.isKeyed_empty
    refine ⟨fun o ho => hkeyed o ?_, ?_, ?_⟩
    · rwa [hobjects] at ho
    · rw [hobjects, Array.size_push]
      exact Nat.lt_succ_self _
    · rw [Agent.object_eq_getD, hobjects, Array.getElem?_push_size]
      rfl
  -- what patterns leave over
  · rw [Machine.bindPattern_object, bind_ok (Machine.requireParts_apply hv a), bind_error h]
  · have hb := isKeyed_takeProperty ha h
    exact ⟨_, Agent.copies_holding hb v _, Machine.bindPattern_rest hv h hb p⟩
  · rw [Machine.assignTarget_object, bind_ok (Machine.requireParts_apply hv a), bind_error h]
  · have hb := isKeyed_takeTargets ha h
    exact ⟨_, Agent.copies_holding hb v _, Machine.assignTarget_rest hv h hb⟩

/-- An agent with two variables, one of which is for an object with properties of all sorts. -/
def Agent.withAssorted : Agent :=
  { Agent.nameless with
    environments := ⟨#[some ⟨none, [("a", ⟨some (.object ⟨0⟩), false, true, false⟩),
      ("b", ⟨some .null, false, true, false⟩)]⟩], [], 0⟩
    objects := #[⟨.ordinary, true, #[.data (.symbol ⟨0, none⟩) .null, .data "b" (.boolean true),
      .hidden "c" .null, .data (.text ⟨#[0xD800]⟩) .null, .data (.ofNat 1) (.boolean false)]⟩] }

/-- The hidden property is not copied, the index comes first, and the entries do not have the symbol.  A
pattern leaves over what it does not take. -/
theorem copies_agree_assorted :
    let a := Agent.withAssorted
    let m := Machine.ofDepth 6
    let lone : PropertyKey := .text ⟨#[0xD800]⟩
    let symbol : PropertyKey := .symbol ⟨0, none⟩
    (∃ x y : Object, x.ownKeys = [.ofNat 1, ("b" : PropertyKey), lone, symbol] ∧
      y.ownKeys = [.ofNat 1, ("b" : PropertyKey), lone] ∧
      m.value (.object ⟨0, 8⟩ [.spread (.identifier ⟨5, 6⟩ "a")]) a = .ok (.object ⟨1⟩) (a.withNew x) ∧
      m.objectFunction .assign [.object ⟨1⟩, .object ⟨0⟩] (a.withNew .empty)
        = .ok (.object ⟨1⟩) (a.withNew x) ∧
      ∃ id b, (do m.objectFunction .fromEntries [← m.objectFunction .entries [.object ⟨0⟩]]) (a.withNew .empty)
        = .ok (.object id) b ∧ b.object id = y) ∧
    m.objectFunction .entries [.null] (a.withNew .empty)
      = raise .typeError "Cannot convert undefined or null to object" (a.withNew .empty) ∧
    (∃ (z : Object) (b : Agent), z.ownKeys = [.ofNat 1, lone, symbol] ∧
      m.bindPattern (.object [⟨.fixed "b", .identifier "b"⟩] (some (.identifier "a"))) (.object ⟨0⟩) none a
        = m.run (.bind (.identifier "a") (.object ⟨1⟩) none) (b.withNew z)) ∧
    ∃ (z : Object) (r : Option Reference) (b : Agent), z.ownKeys = [.ofNat 1, lone, symbol] ∧
      m.assignTarget (.object [.shorthand ⟨2, 3⟩ "b" none] (some (.identifier ⟨8, 9⟩ "a"))) (.object ⟨0⟩) a
        = m.assignAt (.identifier ⟨8, 9⟩ "a") r (.object ⟨1⟩) (b.withNew z) := by
  intro a m lone symbol
  obtain ⟨hfresh, hname, hrest, -, -, -⟩ := copies_agree
  have ha : a.IsKeyed := fun o ho => by
    have hsource : o = ⟨.ordinary, true, #[.data symbol .null, .data "b" (.boolean true), .hidden "c" .null,
      .data lone .null, .data (.ofNat 1) (.boolean false)]⟩ := Array.mem_singleton.mp ho
    subst hsource
    exact Object.isKeyed_of_distinct rfl (by decide +kernel)
  have hsource : m.expression (.identifier ⟨5, 6⟩ "a") (a.withNew .empty)
      = .ok (.object ⟨0⟩) (a.withNew .empty) := rfl
  obtain ⟨hb, hlt, hempty⟩ := hname 6 a _ _ _ _ ha hsource
  -- Each part is applied to an object with an index, two names, half a pair, a symbol and a hidden
  -- property.
  refine ⟨?_, ?_, ?_, ?_⟩
  · obtain ⟨-, x, y, hx, hy, -, -, hm⟩ := hfresh _ ⟨1⟩ (.object ⟨0⟩) hb hlt hempty
    obtain ⟨hliteral, hassign, -, hentries⟩ := hm m
    have hykeys : y.ownKeys = [.ofNat 1, ("b" : PropertyKey), lone] := hy.keys.trans (by decide +kernel)
    obtain ⟨news, hnews⟩ := hentries rfl (hykeys ▸ by decide) (hykeys ▸ by decide)
    have hput : (a.withNew .empty).put ⟨1⟩ x = a.withNew x := a.put_withNew _ _
    refine ⟨x, y, hx.keys.trans (by decide +kernel), hykeys, hput ▸ hliteral a ⟨0, 8⟩ _ rfl hsource,
      hput ▸ hassign, _, _, hnews, ?_⟩
    rw [← Agent.size_adding]
    exact Agent.object_withNew _ _
  · obtain ⟨-, x, y, -, -, -, -, hm⟩ := hfresh _ ⟨1⟩ .null hb hlt hempty
    exact (hm m).2.2.1 rfl
  · obtain ⟨z, hz, hpattern⟩ := ((hrest 6 a (.object ⟨0⟩) ha rfl).1 none [⟨.fixed "b", .identifier "b"⟩]
      (.identifier "a")).2 ["b"] _ rfl
    exact ⟨z, _, hz.keys.trans (by decide +kernel), hpattern⟩
  · obtain ⟨z, hz, hpattern⟩ := ((hrest 6 a (.object ⟨0⟩) ha rfl).2 [.shorthand ⟨2, 3⟩ "b" none]
      (.identifier ⟨8, 9⟩ "a")).2 ["b"] _ _ rfl
    exact ⟨z, _, _, hz.keys.trans (by decide +kernel), hpattern⟩

/-- Null is copied as if it were an object without properties, but there is no list of its entries. -/
theorem copies_disagree_null :
    let a := Agent.nameless
    let m := Machine.ofDepth 3
    m.value (.object ⟨0, 11⟩ [.spread (.constant ⟨5, 9⟩ .null)]) a = .ok (.object ⟨0⟩) (a.withNew .empty) ∧
      m.objectFunction .assign [.object ⟨0⟩, .null] (a.withNew .empty)
        = .ok (.object ⟨0⟩) (a.withNew .empty) ∧
      ¬∃ v b, (do m.objectFunction .fromEntries [← m.objectFunction .entries [.null]]) a = .ok v b := by
  refine ⟨rfl, rfl, ?_⟩
  rintro ⟨v, b, h⟩
  cases h

end Scriptlet
