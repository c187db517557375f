import Scriptlet.Proofs.Assignments
import Scriptlet.Proofs.Confinement

/-!
# The law of assignments to properties

An assignment to a property of an object gives the property its value or throws an error; all other
properties and all other objects are as they were.  What is assigned to the length of an array is
converted to a number before, and the conversion may call methods; the law is about conversions that
come to no function of the program and to no built-in function that changes an object.

A machine that stops at every other call tells such conversions from others.  It leaves the objects as
they are unless it is stopped, and it does what a machine does that is not watched.

## Main definitions

* `Agent.Retains` — the objects that there were are as they were.
* `Condition.sparing` — calls are calls of built-in functions which retain the objects.
* `Sparing` — a computation retains the objects unless it is stopped.

## Main results

* `sparing_watching` — conversions that are watched retain the objects.
* `assignOn_law` — **the law of assignments**.
* `assignOn_pop` — a built-in method may change an object while a value is converted.
-/

namespace Scriptlet

open Eval

/-- The objects that there were are as they were. -/
def Agent.Retains (a b : Agent) : Prop :=
  ∀ (i : Nat) (x : Object), a.objects[i]? = some x → b.objects[i]? = some x

namespace Agent.Retains

variable {a b c : Agent}

theorem refl (a : Agent) : a.Retains a := fun _ _ => id

theorem trans (h : a.Retains b) (h' : b.Retains c) : a.Retains c := fun i x hx => h' i x (h i x hx)

theorem of_same (h : b.objects = a.objects) : a.Retains b := fun i x hx => by rwa [h]

theorem of_extends {news : List Object} (h : a.Extends b news) : a.Retains b := by
  have hadded : ∀ (news : List Object) (l : Array Object) (i : Nat) (x : Object),
      l[i]? = some x → (l ++ news)[i]? = some x := by
    intro news
    induction news with
    | nil => exact fun l i x hx => by simpa using hx
    | cons y news ih =>
      intro l i x hx
      have hlt : i < l.size := (Array.getElem?_eq_some_iff.mp hx).1
      have hpush : (l.push y)[i]? = some x := by rw [Array.getElem?_push, if_neg (Nat.ne_of_lt hlt), hx]
      simpa using ih (l.push y) i x hpush
  exact fun i x hx => h.objects ▸ hadded news a.objects i x hx

theorem object (h : a.Retains b) {o : ObjectId} (ho : o.index < a.objects.size) :
    b.object o = a.object o := by
  have hx := Array.getElem?_eq_getElem ho
  rw [Agent.object_eq_getD, Agent.object_eq_getD, h _ _ hx, hx]

end Agent.Retains

namespace Eval

/-- Computations that make new objects only retain those that there were. -/
def retention : CreationLaw where
  Holds := Leads Agent.Retains
  CountsOnKeys := False
  pure _ := .refl
  throw _ := .refl
  get := .refl
  bindOf h hf := h.seqOf .trans fun a x b => hf a x b False.elim
  extend f hf a := by
    obtain ⟨news, -, h⟩ := hf a
    exact .of_extends h
  newEnvironment _ _ := .of_same rfl
  updateEnvironment e f := by
    refine (Leads.seq .trans (fun _ => .refl _) fun a => ?_).seq .trans fun _ _ => .of_same rfl
    split
    · exact .refl
    · exact .refl

theorem retains_raise (α : Type) (kind : ErrorKind) (message : String) :
    Leads Agent.Retains (raise kind message : Eval α) := retention.raise kind message

theorem retains_getFrom (o : ObjectId) (k : PropertyKey) : Leads Agent.Retains (getFrom o k) := by
  have hmethod : ∀ b, Leads Agent.Retains (method b) := fun b =>
    .method .refl fun a => retention.allocate (.ofKind (.builtin b)) nofun a
  unfold Eval.getFrom Eval.common?
  refine retention.bind (retention.bind retention.get fun _ => retention.pure _) fun x => ?_
  split
  · exact retention.pure _
  · refine retention.bind (retention.bind retention.get fun a => ?_) fun _ => retention.pure _
    split
    · exact retention.pure _
    · exact retention.pure _
    · refine retention.bind retention.get fun a => ?_
      split
      · exact retention.bind (hmethod _) fun _ => retention.pure _
      · exact retention.pure _

end Eval

/-! ### Conversions -/

/-- Calls of functions are admitted that are built in and leave the objects as they are. -/
def Condition.sparing : Condition where
  admits t a :=
    match t with
    | .call f this args => (∀ c, (a.object f).kind ≠ .closure c) ∧
        ∀ n, a.Retains (((Machine.ofDepth n).callFunction f this args).after a)
    | _ => True

/-- The computation retains the objects, unless it is stopped. -/
def Sparing {α : Type} (p : Eval α) : Prop :=
  ∀ a, (∃ x b, p a = .error (.broken x) b) ∨ a.Retains (p.after a)

namespace Sparing

variable {α β σ : Type} {p : Eval α} {f : α → Eval β}

theorem of_leads (h : Leads Agent.Retains p) : Sparing p := fun a => .inr (h a)

theorem bind (h : Sparing p) (hf : ∀ x, Sparing (f x)) : Sparing (p >>= f) := by
  intro a
  cases hp : p a with
  | error i b =>
    rcases h a with ⟨x, c, hx⟩ | hr
    · exact .inl ⟨x, c, bind_error hx⟩
    · rw [after_error (bind_error hp), ← after_error hp]
      exact .inr hr
  | ok y b =>
    have hbind : (p >>= f) a = f y b := bind_ok hp
    have hab : a.Retains b := by
      rcases h a with ⟨x, c, hx⟩ | hr
      · rw [hp] at hx
        cases hx
      · rwa [after_ok hp] at hr
    unfold Eval.after
    rw [hbind]
    exact (hf y b).imp id hab.trans

theorem iterate {q : σ → Eval (Sum σ α)} (h : ∀ s, Sparing (q s)) (n : Nat) (s : σ) :
    Sparing (Eval.iterate q n s) := by
  induction n generalizing s with
  | zero => exact of_leads .refl
  | succ n ih =>
    rw [iterate_succ]
    refine bind (h s) fun x => ?_
    cases x with
    | inl s => exact ih s
    | inr r => exact of_leads .refl

theorem ending (h : Sparing p) {g : Agent → Agent} (hg : ∀ a, (g a).objects = a.objects) :
    Sparing (Eval.ending p g) := by
  intro a
  rcases h a with ⟨x, b, hx⟩ | hr
  · refine .inl ⟨x, g b, ?_⟩
    unfold Eval.ending
    rw [hx]
  · rw [after_ending]
    exact .inr (hr.trans (.of_same (hg _)))

end Sparing

/-- The machine converts objects and calls functions so that objects are retained, unless it is
stopped. -/
structure Machine.IsSparing (m : Machine) : Prop where
  primitive : ∀ o hint, Sparing (m.run (.primitive o hint))
  call : ∀ f this args, Sparing (m.call f this args)

namespace Machine.IsSparing

variable {m : Machine} (h : m.IsSparing)

include h

theorem toPrimitive (v : Value) (hint : Hint) : Sparing (m.toPrimitive v hint) := by
  cases v with
  | object o => exact h.primitive o hint
  | _ => exact .of_leads .refl

theorem toNumber (v : Value) : Sparing (m.toNumber v) := by
  refine .bind (h.toPrimitive v .number) fun w => .of_leads ?_
  unfold Eval.numberOf
  split
  · exact .refl
  · exact retains_raise _ _ _

theorem toText (v : Value) : Sparing (m.toText v) := by
  refine .bind (h.toPrimitive v .text) fun w => .of_leads ?_
  unfold Eval.textOf
  split
  · exact .refl
  · exact retains_raise _ _ _

theorem joinNext (o : ObjectId) (separator : Text) (length : Nat) (j : Joining) :
    Sparing (m.joinNext o separator length j) := by
  unfold Machine.joinNext
  refine .bind (.of_leads .refl) fun a => ?_
  split
  · exact .of_leads .refl
  · split
    · exact .of_leads .refl
    · split
      · exact .of_leads .refl
      · refine .bind (h.toText _) fun t => .of_leads ?_
        dsimp only
        split
        · exact retains_raise _ _ _
        · exact .refl

theorem join (o : ObjectId) (separator : Text) : Sparing (m.join o separator) := by
  have helements : Sparing (m.joinElements o separator) := by
    unfold Machine.joinElements
    refine .bind (.of_leads .refl) fun a => ?_
    dsimp only
    split
    · exact .of_leads (retains_raise _ _ _)
    · exact .iterate (h.joinNext o separator _) _ _
  unfold Machine.join
  refine .bind (.of_leads .refl) fun a => ?_
  split
  · exact .of_leads .refl
  · exact .bind (.of_leads fun _ => .of_same rfl) fun _ => .ending helements fun _ => rfl

theorem errorPart (o : ObjectId) (name : String) (missing : Text) :
    Sparing (m.errorPart o name missing) := by
  unfold Machine.errorPart
  refine .bind (.of_leads (retains_getFrom o name)) fun v => ?_
  split
  · exact .of_leads .refl
  · exact h.toText v

theorem contentText (o : ObjectId) : Sparing (m.contentText o) := by
  unfold Machine.contentText
  refine .bind (.of_leads .refl) fun x => ?_
  split
  · exact h.join o _
  · exact .bind (h.errorPart o _ _) fun name => .bind (h.errorPart o _ _) fun message =>
      .of_leads .refl
  · exact .of_leads .refl
  · exact .of_leads .refl
  · exact .of_leads .refl

theorem convertedBy (o : ObjectId) (name : String) : Sparing (m.convertedBy o name) := by
  unfold Machine.convertedBy
  refine .bind (.of_leads .refl) fun x => ?_
  split
  · exact .of_leads .refl
  · refine .bind (.of_leads .refl) fun a => ?_
    split
    · exact .of_leads .refl
    · refine .bind (h.call _ _ _) fun v => .of_leads ?_
      split <;> exact .refl

theorem primitiveOf (o : ObjectId) (hint : Hint) : Sparing (m.primitiveOf o hint) := by
  unfold Machine.primitiveOf
  refine .bind (h.convertedBy o _) fun v => ?_
  split
  · exact .of_leads .refl
  · refine .bind (h.convertedBy o _) fun v => ?_
    split
    · exact .of_leads .refl
    · exact .bind (h.contentText o) fun t => .of_leads .refl

end Machine.IsSparing

/-- A call that is admitted retains the objects. -/
theorem retains_call {f : ObjectId} {this : Value} {args : List Value} {a : Agent} {n : Nat}
    (h : Condition.sparing.admits (.call f this args) a) :
    (∃ x b, ((Machine.watching .sparing n).callFunction f this args) a = .error (.broken x) b) ∨
      a.Retains (((Machine.watching .sparing n).callFunction f this args).after a) := by
  have hbelow := ((Machine.isBelow_watching .sparing n).step (.call f this args)).follows a
  rcases hbelow with ⟨_, b, hb, x, rfl⟩ | heq
  · exact .inl ⟨x, b, hb⟩
  · have hretains := h.2 n
    have hafter : ((Machine.ofDepth n).callFunction f this args).after a
        = ((Machine.watching .sparing n).callFunction f this args).after a := by
      unfold Eval.after
      rw [show (Machine.ofDepth n).callFunction f this args a = _ from heq]
      rfl
    exact .inr (hafter ▸ hretains)

/-- **Conversions that are watched retain the objects.** -/
theorem sparing_watching (n : Nat) : (Machine.watching .sparing n).IsSparing := by
  induction n with
  | zero => exact ⟨fun _ _ => .of_leads .refl, fun _ _ _ => .of_leads .refl⟩
  | succ n ih =>
    refine ⟨fun o hint a => ?_, fun f this args a => ?_⟩
    · have hpass : Task.runWatching .sparing (n + 1) (.primitive o hint) a
          = (Machine.watching .sparing n).primitiveOf o hint a := congrFun (if_pos trivial) a
      change (∃ x b, Task.runWatching _ _ _ a = _) ∨ a.Retains (Eval.after (Task.runWatching _ _ _) a)
      unfold Eval.after
      rw [hpass]
      exact ih.primitiveOf o hint a
    · change (∃ x b, Task.runWatching _ _ _ a = _) ∨ a.Retains (Eval.after (Task.runWatching _ _ _) a)
      by_cases hadmits : Condition.sparing.admits (.call f this args) a
      · have hpass : Task.runWatching .sparing (n + 1) (.call f this args) a
            = (Machine.watching .sparing n).callFunction f this args a :=
          congrFun (if_pos hadmits) a
        unfold Eval.after
        rw [hpass]
        exact retains_call hadmits
      · have hstop : Task.runWatching .sparing (n + 1) (.call f this args) a
            = .error (.broken .missingScope) a := congrFun (if_neg hadmits) a
        exact .inl ⟨_, a, hstop⟩

/-- The value is converted to a number without calls, but of built-in functions that leave the objects
as they are. -/
def Agent.ConvertsAlone (a : Agent) (n : Nat) (v : Value) : Prop :=
  ∀ x b, (Machine.watching .sparing n).toNumber v a ≠ .error (.broken x) b

/-! ### Assignments -/

variable {n : Nat} {m : Machine} {a b c : Agent} {o : ObjectId} {k : PropertyKey} {v w : Value}

theorem retains_toNumber (h : a.ConvertsAlone n v) :
    a.Retains (((Machine.ofDepth n).toNumber v).after a) := by
  have hbelow := ((Machine.isBelow_watching .sparing n).toNumber v).follows a
  rcases hbelow with ⟨_, b, hb, x, rfl⟩ | heq
  · exact absurd hb (h x b)
  · unfold Eval.after
    rw [heq]
    exact ((sparing_watching n).toNumber v a).resolve_left fun ⟨x, b, hb⟩ => h x b hb

theorem getFrom_own (h : (a.object o).ownValue? k = some w) : getFrom o k a = .ok w a := by
  have hobject : Eval.object o a = .ok (a.object o) a := rfl
  unfold getFrom
  rw [bind_ok hobject, h]
  rfl

/-- An object is changed if that is possible, and no other one is. -/
theorem changeObject_cases (o : ObjectId) (a : Agent) {f : Object → Bool × Object}
    (hf : ∀ x, (f x).1 = false → (f x).2 = x) :
    (∃ b, changeObject o f false a = .ok false b ∧ a.Retains b) ∨
      ∃ b, changeObject o f false a = .ok true b ∧ (f (a.object o)).1 = true ∧
        b.object o = (f (a.object o)).2 ∧ ∀ i, i ≠ o → b.object i = a.object i := by
  by_cases ho : o.index < a.objects.size
  · have hget : ∀ i, ({ a with objects := a.objects.setIfInBounds o.index (f (a.object o)).2 } :
        Agent).object i = if o.index = i.index then (f (a.object o)).2 else a.object i := by
      intro i
      rw [Agent.object_eq_getD, Array.getElem?_setIfInBounds, if_pos ho]
      split
      · rfl
      · exact (Agent.object_eq_getD a i).symm
    cases hfst : (f (a.object o)).1 with
    | true =>
      refine .inr ⟨_, (changeObject_apply ho f false).trans (by rw [hfst]), rfl, ?_, fun i hi => ?_⟩
      · rw [hget, if_pos rfl]
      · rw [hget, if_neg fun heq => hi (congrArg ObjectId.mk heq.symm)]
    | false =>
      refine .inl ⟨_, (changeObject_apply ho f false).trans (by rw [hfst]), fun i x hx => ?_⟩
      rw [hf _ hfst, Array.getElem?_setIfInBounds]
      split
      · next heq =>
        subst heq
        rw [Agent.object_eq_getD, hx]
        rfl
      · exact hx
  · exact .inl ⟨a, changeObject_missing ho f false, .refl a⟩

/-- An assignment that is not possible is an error. -/
theorem assignOn_of_false (h : m.setOn o k v a = .ok false b) :
    ∃ i c, m.assignOn o k v a = .error i c ∧ b.Retains c := by
  unfold Machine.assignOn
  rw [bind_ok h]
  have hobject : Eval.object o b = .ok (b.object o) b := rfl
  change ∃ i c, (Eval.object o >>= _) b = _ ∧ _
  rw [bind_ok hobject]
  cases (b.object o).hasOwn k with
  | true => exact ⟨_, _, rfl, retains_raise Unit _ _ b⟩
  | false => exact ⟨_, _, rfl, retains_raise Unit _ _ b⟩

/-- An assignment, but to the length of an array. -/
theorem assignOn_write (m : Machine) (o : ObjectId) (v : Value) (ha : a.IsKeyed)
    (hlength : (k.isNamed "length" && (a.object o).isArray) = false) :
    (∃ i b, m.assignOn o k v a = .error i b ∧ a.Retains b) ∨
      ∃ b, m.assignOn o k v a = .ok () b ∧ (∀ i, i ≠ o → b.object i = a.object i) ∧
        (a.object o).Takes k v (b.object o) ∧ getFrom o k b = .ok v b := by
  have hset : m.setOn o k v a = changeObject o (·.write k v) false a := by
    change (if k.isNamed "length" && (a.object o).isArray then _ else _ : Eval Bool) a = _
    rw [hlength]
    rfl
  rcases changeObject_cases o a (f := (·.write k v)) fun _ => Object.write_of_not with
    ⟨b, hb, hretains⟩ | ⟨b, hb, hw, hself, hothers⟩
  · obtain ⟨i, c, hc, hbc⟩ := assignOn_of_false (hset.trans hb)
    exact .inl ⟨i, c, hc, hretains.trans hbc⟩
  · have hnot : ¬(k.isNamed "length" = true ∧ (a.object o).isArray = true) := by
      rw [← Bool.and_eq_true, hlength]
      nofun
    have htakes := hself ▸ Object.takes_write (ha.object o) hnot hw
    refine .inr ⟨b, bind_ok (hset.trans hb), hothers, htakes, getFrom_own ?_⟩
    rw [Object.ownValue?, htakes.property]
    rfl

/-- An assignment to the length of an array. -/
theorem assignOn_length (o : ObjectId) (ha : a.IsKeyed) (hk : k.isNamed "length" = true)
    (harray : (a.object o).isArray = true) (hretains : a.Retains ((m.toNumber v).after a)) :
    (∃ i b, m.assignOn o k v a = .error i b ∧ a.Retains b) ∨
      ∃ b, m.assignOn o k v a = .ok () b ∧
        (∀ i, i ≠ o → i.index < a.objects.size → b.object i = a.object i) ∧
        ∃ x l c, m.toNumber v a = .ok x c ∧ (Float.ofNat l == x) = true ∧
          (a.object o).Resized l (b.object o) ∧ getFrom o k b = .ok (.ofNat l) b := by
  have hset : m.setOn o k v a = (m.toNumber v >>= fun x =>
      if Float.ofNat (Double.toUInt32 x) == x then
        changeObject o (·.setLength (Double.toUInt32 x)) false
      else raise .rangeError "Invalid array length") a := by
    change (if k.isNamed "length" && (a.object o).isArray then _ else _ : Eval Bool) a = _
    rw [hk, harray]
    rfl
  have ho : o.index < a.objects.size := by
    refine Nat.lt_of_not_le fun hle => ?_
    rw [Agent.object_eq_getD, Array.getElem?_eq_none hle] at harray
    cases harray
  cases hx : m.toNumber v a with
  | error i c =>
    rw [after_error hx] at hretains
    rw [bind_error hx] at hset
    exact .inl ⟨i, c, bind_error hset, hretains⟩
  | ok x c =>
    rw [after_ok hx] at hretains
    rw [bind_ok hx] at hset
    by_cases hl : (Float.ofNat (Double.toUInt32 x) == x) = true
    · rw [if_pos hl] at hset
      -- The conversion of the value has left the array as it was.
      have hsame : c.object o = a.object o := hretains.object ho
      rcases changeObject_cases o c (f := (·.setLength (Double.toUInt32 x)))
          fun _ => Object.setLength_of_not with ⟨b, hb, hcb⟩ | ⟨b, hb, hw, hself, hothers⟩
      · obtain ⟨i, d, hd, hbd⟩ := assignOn_of_false (hset.trans hb)
        exact .inl ⟨i, d, hd, hretains.trans (hcb.trans hbd)⟩
      · rw [hsame] at hself hw
        have hresized := hself ▸ Object.resized_setLength (ha.object o)
          (Nat.le_sub_one_of_lt (Double.toUInt32_lt x)) hw
        refine .inr ⟨b, bind_ok (hset.trans hb), fun i hi hold => ?_, x, _, c, rfl, hl, hresized,
          getFrom_own ?_⟩
        · exact (hothers i hi).trans (hretains.object hold)
        · rw [Object.ownValue?, Object.isNamed_iff.mp hk, hresized.length]
          obtain ⟨e, he⟩ := Object.isArray_iff.mp harray
          rw [Object.ownProperty?_length_of he]
          rfl
    · rw [if_neg hl] at hset
      exact .inl ⟨_, _, bind_error hset, hretains.trans (retains_raise Bool _ _ c)⟩

/-- **The law of assignments.**  An error leaves all objects as they are; else the property has the
value, and all other properties and objects are as they were, but for the length of an array and the
elements behind it. -/
theorem assignOn_law (ha : a.IsKeyed)
    (hv : k.isNamed "length" = true → (a.object o).isArray = true → a.ConvertsAlone n v) :
    match (Machine.ofDepth n).assignOn o k v a with
    | .error _ b => a.Retains b
    | .ok _ b =>
      (∀ i, i ≠ o → i.index < a.objects.size → b.object i = a.object i) ∧
        if k.isNamed "length" && (a.object o).isArray then
          ∃ x l c, (Machine.ofDepth n).toNumber v a = .ok x c ∧ (Float.ofNat l == x) = true ∧
            (a.object o).Resized l (b.object o) ∧ getFrom o k b = .ok (.ofNat l) b
        else (a.object o).Takes k v (b.object o) ∧ getFrom o k b = .ok v b := by
  cases hlength : k.isNamed "length" && (a.object o).isArray with
  | false =>
    rcases assignOn_write (.ofDepth n) o v ha hlength with
      ⟨i, b, hb, hretains⟩ | ⟨b, hb, hothers, htakes⟩
    · rw [hb]
      exact hretains
    · rw [hb]
      exact ⟨fun i hi _ => hothers i hi, htakes⟩
  | true =>
    obtain ⟨hk, harray⟩ := Bool.and_eq_true_iff.mp hlength
    rcases assignOn_length o ha hk harray (retains_toNumber (hv hk harray)) with
      ⟨i, b, hb, hretains⟩ | ⟨b, hb, hothers, hresized⟩
    · rw [hb]
      exact hretains
    · rw [hb]
      exact ⟨hothers, hresized⟩

/-- An agent with an array of a single element. -/
def Agent.withSingle : Agent := { Agent.nameless with objects := #[.single] }

theorem Agent.isKeyed_withSingle : Agent.withSingle.IsKeyed := by
  intro x hx
  obtain rfl : x = .single := by simpa [Agent.withSingle] using hx
  exact Object.isKeyed_array ⟨Elements.isStored_ofList _, by decide⟩

/-- An element behind the end of an array makes it longer, and its length is not set to a symbol. -/
theorem assignOn_law_single :
    (∃ b, (Machine.ofDepth 0).assignOn ⟨0⟩ (.ofNat 3) .null .withSingle = .ok () b ∧
      Object.single.Takes (.ofNat 3) .null (b.object ⟨0⟩) ∧
      (b.object ⟨0⟩).ownValue? "length" = some (.ofNat 4)) ∧
    Agent.withSingle.ConvertsAlone 0 (.symbol ⟨0, none⟩) ∧
    ∃ i b, (Machine.ofDepth 0).assignOn ⟨0⟩ "length" (.symbol ⟨0, none⟩) .withSingle = .error i b ∧
      Agent.withSingle.Retains b := by
  have hnot : ¬(PropertyKey.ofNat 3).isNamed "length" = true := by decide +kernel
  have hindex : (PropertyKey.ofNat 3).arrayIndex? = some 3 := PropertyKey.arrayIndex?_ofNat (by decide)
  have halone : Agent.withSingle.ConvertsAlone 0 (.symbol ⟨0, none⟩) := fun x b h => by cases h
  have hfar := assignOn_law (n := 0) (o := ⟨0⟩) (k := .ofNat 3) (v := .null) Agent.isKeyed_withSingle
    fun h => absurd h hnot
  have hlength := assignOn_law (n := 0) (o := ⟨0⟩) (k := "length") Agent.isKeyed_withSingle
    fun _ _ => halone
  have hdone : (((Machine.ofDepth 0).assignOn ⟨0⟩ (.ofNat 3) .null).run' .withSingle).isSome = true := by
    decide +kernel
  obtain ⟨⟨⟩, b, hb⟩ := ok_of_run' hdone
  rw [hb] at hfar
  have htakes : Object.single.Takes (.ofNat 3) .null (b.object ⟨0⟩) := by
    have hfalse : ((PropertyKey.ofNat 3).isNamed "length" && (Agent.withSingle.object ⟨0⟩).isArray)
        = false := by rw [Bool.eq_false_iff.mpr hnot, Bool.false_and]
    simp only [hfalse] at hfar
    exact hfar.2.1
  refine ⟨⟨b, hb, htakes, ?_⟩, halone, ?_⟩
  · rw [Object.ownValue?, htakes.length (.ofList [.null]) rfl, Object.ownProperty?_length_of rfl,
      Object.grown, hindex]
    rfl
  · cases hrun : (Machine.ofDepth 0).assignOn ⟨0⟩ "length" (.symbol ⟨0, none⟩) .withSingle with
    | ok x b =>
      have hfails : (((Machine.ofDepth 0).assignOn ⟨0⟩ "length" (.symbol ⟨0, none⟩)).run'
          .withSingle).isSome = false := by decide +kernel
      unfold EStateM.run' EStateM.run at hfails
      rw [hrun] at hfails
      cases hfails
    | error i b =>
      rw [hrun] at hlength
      exact ⟨i, b, rfl, hlength⟩

/-- An array that the built-in function at the third place converts to a number. -/
def Object.withMethod : Object :=
  { Object.ofKind (.array (.ofList [.symbol ⟨0, none⟩])) with
    properties := #[.data "valueOf" (.object ⟨2⟩)] }

/-- An agent without any function of a program, with an array that is converted by taking its last
element out of it. -/
def Agent.popping : Agent :=
  { Agent.nameless with
    objects := #[.single, .withMethod, .ofKind (.builtin (.arrayMethod .pop))] }

/-- A built-in function changes an object while another one is assigned to in vain. -/
theorem assignOn_pop :
    (∀ x ∈ Agent.popping.objects, ∀ c, x.kind ≠ .closure c) ∧ Agent.popping.IsKeyed ∧
    ∃ i b, (Machine.ofDepth 2).assignOn ⟨0⟩ "length" (.object ⟨1⟩) .popping = .error i b ∧
      (Agent.popping.object ⟨1⟩).hasOwn (.ofNat 0) = true ∧
      (b.object ⟨1⟩).hasOwn (.ofNat 0) = false := by
  have hsound : ∀ v : Value, (Elements.ofList [v]).IsSound := fun v =>
    ⟨Elements.isStored_ofList [v], (by decide : 1 ≤ maxArrayLength)⟩
  have hkeys : ∀ x ∈ Agent.popping.objects, (∀ c, x.kind ≠ .closure c) ∧ x.IsKeyed := by
    intro x hx
    -- The agent has three objects, none of which is a closure.
    have hcases : x = .single ∨ x = .withMethod ∨ x = .ofKind (.builtin (.arrayMethod .pop)) := by
      simpa [Agent.popping] using hx
    rcases hcases with rfl | rfl | rfl
    · exact ⟨nofun, Object.isKeyed_array (hsound _)⟩
    · refine ⟨nofun, List.nodup_singleton _, fun _ k hk => ?_, fun e he => ?_⟩
      · obtain rfl : k = ("valueOf" : PropertyKey) := List.mem_singleton.mp hk
        decide +kernel
      · cases he
        exact hsound _
    · exact ⟨nofun, Object.isKeyed_ofKind nofun⟩
  have hrun : (match (Machine.ofDepth 2).assignOn ⟨0⟩ "length" (.object ⟨1⟩) .popping with
      | .error _ b => !(b.object ⟨1⟩).hasOwn (.ofNat 0)
      | .ok _ _ => false) = true := by decide +kernel
  refine ⟨fun x hx => (hkeys x hx).1, fun x hx => (hkeys x hx).2, ?_⟩
  cases h : (Machine.ofDepth 2).assignOn ⟨0⟩ "length" (.object ⟨1⟩) .popping with
  | ok x b =>
    rw [h] at hrun
    cases hrun
  | error i b =>
    rw [h] at hrun
    exact ⟨i, b, rfl, by decide +kernel, by simpa using hrun⟩

end Scriptlet
