import Scriptlet.Proofs.KeyChanges
import Scriptlet.Proofs.Refusals

/-!
# Deletion

Deleting a member of an object takes the property with its key out of the object, or throws an error
if the object does not give it up.  Nothing else happens to any object, whether the property is an
element of an array, in the block or in the list of elements, or in the list of properties.

A chain stands for no place, whatever its last link reads.  Deleting it evaluates it, deletes nothing
and reports success, so that what is said of members does not hold of chains.

## Main definitions

* `Object.Yields` — an object gives up a property, if it has it.
* `Agent.Loses` — an object loses a property, and nothing else happens.
* `Machine.Designates` — the parts of a member have been evaluated.

## Main results

* `Object.delete_of_yields`, `Object.delete_of_not_yields` — what deletion does to an object.
* `delete_member` — **the law of deletion**, of members in any number of wrappers.
* `delete_chain` — deleting a chain does nothing but to evaluate it.
* `delete_chain_keeps` — a property that a chain reads is still there after it has been deleted.
-/

namespace Scriptlet

open Eval

/-! ### Objects -/

namespace Object

variable {o x : Object} {k : PropertyKey}

/-- The object gives up the property with the key, if there is one. -/
def Yields (o : Object) (k : PropertyKey) : Prop :=
  ∀ p, o.ownProperty? k = some p → p.isConfigurable = true

/-- The second object has the properties of the first one but the one with the key. -/
structure Without (o : Object) (k : PropertyKey) (x : Object) : Prop where
  absent : x.ownProperty? k = none
  others : ∀ j, j ≠ k → x.ownProperty? j = o.ownProperty? j
  isExtensible : x.isExtensible = o.isExtensible

theorem Without.of_none (h : o.ownProperty? k = none) : o.Without k o := ⟨h, fun _ _ => rfl, rfl⟩

/-- The list with one key less. -/
theorem listed?_filter (o : Object) (k j : PropertyKey) :
    (o.properties.filter fun p => !(p.key == k)).find? (·.key == j)
      = if j = k then none else o.listed? j := by
  rw [listed?]
  obtain ⟨properties⟩ := o.properties
  rw [List.filter_toArray, List.find?_toArray, List.find?_toArray, List.find?_filter]
  by_cases hj : j = k
  · subst hj
    simp [List.find?_eq_none]
  · rw [if_neg hj]
    congr 1
    funext p
    by_cases hp : p.key = j
    · simp [hp, hj]
    · simp [hp]

/-- What is deleted from the list is not found in it, and the rest is. -/
theorem listed?_deleteListed (h : (o.deleteListed k).1 = true) (j : PropertyKey) :
    (o.deleteListed k).2.listed? j = if j = k then none else o.listed? j := by
  unfold deleteListed at h ⊢
  cases hfind : o.properties.find? (·.key == k) with
  | none =>
    by_cases hj : j = k
    · rw [if_pos hj, hj]
      exact hfind
    · rw [if_neg hj]
  | some p =>
    rw [hfind] at h
    dsimp only at h ⊢
    split at h
    · next hp =>
      rw [if_pos hp]
      exact listed?_filter o k j
    · cases h

/-- A listed property is deleted from the list if it may be. -/
theorem deleteListed_fst (o : Object) (k : PropertyKey) :
    (o.deleteListed k).1 = (o.listed? k).all (·.isConfigurable) := by
  unfold deleteListed listed?
  cases o.properties.find? (·.key == k) with
  | none => rfl
  | some p =>
    dsimp only [Option.all_some]
    cases p.isConfigurable <;> rfl

theorem isExtensible_deleteListed (o : Object) (k : PropertyKey) :
    (o.deleteListed k).2.isExtensible = o.isExtensible := by
  unfold deleteListed
  split
  · rfl
  · split <;> rfl

/-- Whether a property is deleted is decided by the property alone. -/
theorem delete_fst (o : Object) (k : PropertyKey) :
    (o.delete k).1 = (o.ownProperty? k).all (·.isConfigurable) := by
  have hlisted := deleteListed_fst o k
  obtain ⟨kind, isExtensible, properties⟩ := o
  cases kind with
  | array e =>
    unfold delete ownProperty?
    dsimp only
    cases k.arrayIndex? with
    | some i =>
      dsimp only
      unfold Elements.has
      cases he : e.isFrozen <;> cases e.get? i <;> simp [elementProperty, he]
    | none =>
      dsimp only
      by_cases hlength : k.isNamed "length" = true
      · rw [if_pos hlength, if_pos hlength]
        rfl
      · rw [if_neg hlength, if_neg hlength]
        exact hlisted
  | _ => exact hlisted

/-- An array without one of its elements, if it is not frozen. -/
theorem ownProperty?_remove {e : Elements Value} {isExtensible : Bool} {properties : Array Slot}
    {i : Nat} (hi : k.arrayIndex? = some i) (j : PropertyKey) :
    (⟨.array (e.remove i), isExtensible, properties⟩ : Object).ownProperty? j
      = if j = k then none else
          (⟨.array e, isExtensible, properties⟩ : Object).ownProperty? j := by
  unfold ownProperty?
  dsimp only
  cases hj : j.arrayIndex? with
  | some l =>
    dsimp only
    rw [Elements.get?_remove]
    -- The index of the key is its only spelling, so another key has another index.
    by_cases hl : l = i
    · subst hl
      have hjk : j = k :=
        (PropertyKey.ofNat_of_arrayIndex? hj).symm.trans (PropertyKey.ofNat_of_arrayIndex? hi)
      rw [if_pos rfl, if_pos hjk, Option.map_none]
    · have hjk : j ≠ k := by
        rintro rfl
        exact hl (Option.some.inj (hj.symm.trans hi))
      rw [if_neg hl, if_neg hjk]
      unfold elementProperty
      rw [Elements.isFrozen_remove]
  | none =>
    have hjk : j ≠ k := by
      rintro rfl
      rw [hi] at hj
      cases hj
    dsimp only
    rw [if_neg hjk]
    unfold lengthProperty
    rw [Elements.isFrozen_remove, Elements.length_remove]
    rfl

/-- What is deleted from the list of properties is no element and not the length. -/
theorem ownProperty?_deleteListed (hi : o.elementIndex? k = none)
    (hlength : ¬(k.isNamed "length" = true ∧ o.isArray = true)) (h : (o.deleteListed k).1 = true)
    (j : PropertyKey) :
    (o.deleteListed k).2.ownProperty? j = if j = k then none else o.ownProperty? j := by
  have hlist := listed?_deleteListed h j
  unfold ownProperty?
  rw [kind_deleteListed]
  unfold elementIndex? isArray at hi
  unfold isArray at hlength
  cases hkind : o.kind with
  | array e =>
    rw [hkind] at hi hlength
    dsimp only at hi hlength ⊢
    cases hj : j.arrayIndex? with
    | some l =>
      have hjk : j ≠ k := by
        rintro rfl
        -- An index of an array is never in the list.
        rw [if_pos rfl, hj] at hi
        cases hi
      rw [if_neg hjk]
    | none =>
      dsimp only
      by_cases hname : j.isNamed "length" = true
      · have hjk : j ≠ k := by
          rintro rfl
          -- The length is no property that is listed.
          exact hlength ⟨hname, rfl⟩
        rw [if_pos hname, if_pos hname, if_neg hjk]
      · rw [if_neg hname, if_neg hname]
        exact hlist
  | _ => exact hlist

/-- A property that is deleted is not found any more, and all others are. -/
theorem ownProperty?_delete (h : (o.delete k).1 = true) (j : PropertyKey) :
    (o.delete k).2.ownProperty? j = if j = k then none else o.ownProperty? j := by
  cases hi : o.elementIndex? k with
  | none =>
    have heq := delete_eq_deleteListed hi h
    have hlength := not_length_of_delete h
    rw [heq] at h ⊢
    exact ownProperty?_deleteListed hi hlength h j
  | some i =>
    obtain ⟨kind, isExtensible, properties⟩ := o
    cases kind with
    | array e =>
      have hindex : k.arrayIndex? = some i := hi
      unfold delete at h ⊢
      dsimp only at h ⊢
      rw [hindex] at h ⊢
      dsimp only at h ⊢
      split at h
      · next hfrozen =>
        -- The elements of a frozen array stay, so there was none at the index.
        have hnone : e.get? i = none := by
          cases hget : e.get? i with
          | none => rfl
          | some v => simp [Elements.has, hget] at h
        rw [if_pos hfrozen]
        split
        · next hj =>
          subst hj
          unfold ownProperty?
          dsimp only
          rw [hindex]
          dsimp only
          rw [hnone, Option.map_none]
        · rfl
      · next hthawed =>
        rw [if_neg hthawed]
        exact ownProperty?_remove hindex j
    | _ => cases hi

/-- Deletion leaves it open whether there is room. -/
theorem isExtensible_delete (o : Object) (k : PropertyKey) :
    (o.delete k).2.isExtensible = o.isExtensible := by
  have hlisted := isExtensible_deleteListed o k
  obtain ⟨kind, isExtensible, properties⟩ := o
  cases kind with
  | array e =>
    unfold delete
    dsimp only
    split
    · split <;> rfl
    · split
      · rfl
      · exact hlisted
  | _ => exact hlisted

/-- **What an object gives up is deleted**, and all else is left. -/
theorem delete_of_yields (h : o.Yields k) :
    (o.delete k).1 = true ∧ o.Without k (o.delete k).2 := by
  have htrue : (o.delete k).1 = true := by
    rw [delete_fst, Option.all_eq_true]
    exact h
  have hget := ownProperty?_delete htrue
  exact ⟨htrue, (hget k).trans (if_pos rfl), fun j hj => (hget j).trans (if_neg hj),
    isExtensible_delete o k⟩

/-- **What an object does not give up is not deleted**, and the object is left as it is. -/
theorem delete_of_not_yields (h : ¬o.Yields k) : (o.delete k).1 = false ∧ (o.delete k).2 = o := by
  have hfalse : (o.delete k).1 = false := by
    rw [← Bool.not_eq_true, delete_fst, Option.all_eq_true]
    exact h
  refine ⟨hfalse, ?_⟩
  have hlisted := deleteListed_of_false (o := o) (k := k)
  obtain ⟨kind, isExtensible, properties⟩ := o
  cases kind with
  | array e =>
    unfold delete at hfalse ⊢
    dsimp only at hfalse ⊢
    split at hfalse
    · split at hfalse
      · next hfrozen => rw [if_pos hfrozen]
      · cases hfalse
    · split at hfalse
      · next hlength => rw [if_pos hlength]
      · next hlength =>
        rw [if_neg hlength]
        exact hlisted hfalse
  | _ => exact hlisted hfalse

end Object

/-! ### Members -/

/-- An object has lost a property, and nothing else has happened. -/
structure Agent.Loses (a : Agent) (o : ObjectId) (k : PropertyKey) (b : Agent) : Prop where
  property : (a.object o).Without k (b.object o)
  objects : ∀ i, i ≠ o → b.object i = a.object i
  size : b.objects.size = a.objects.size
  rest : b = { a with objects := b.objects }

/-- The agent with a new error of the given kind and message. -/
def Agent.withError (a : Agent) (kind : ErrorKind) (message : String) : Agent :=
  { a with
    objects := a.objects.push
      { Object.ofKind (.error kind) with
        properties := #[.hidden "message" (.text (Text.ofString message))] } }

namespace Eval

variable {α : Type} {a : Agent} {o : ObjectId} {k : PropertyKey}

/-- Nothing is deleted from an object without properties, and that is reported as success. -/
theorem delete_fst_empty (k : PropertyKey) : (Object.empty.delete k).1 = true := by
  rw [Object.delete_fst]
  rfl

theorem deleteProperty_object (o : ObjectId) (k : PropertyKey) (a : Agent) :
    deleteProperty (.object o) k a
      = .ok ((a.object o).delete k).1 (a.modifyObject o fun x => (x.delete k).2) := by
  unfold deleteProperty
  dsimp only
  by_cases ho : o.index < a.objects.size
  · rw [changeObject_apply ho, Agent.modifyObject_eq ho]
  · have hempty : a.object o = .empty := by
      rw [Agent.object_eq_getD, Array.getElem?_eq_none (Nat.le_of_not_lt ho), Option.getD_none]
    rw [changeObject_missing ho, hempty, delete_fst_empty, Agent.modifyObject_of_same]
    exact fun x hx => absurd (Array.getElem?_eq_some_iff.mp hx).1 ho

end Eval

namespace Machine

/-- The parts of an expression have been evaluated, and it stands for a property of an object: it is
a member, in any number of wrappers. -/
inductive Designates (m : Machine) : Expr → Agent → ObjectId → PropertyKey → Agent → Prop
  | member {s : Span} {x : Expr} {name : String} {isOptional : Bool} {a b c : Agent} {o : ObjectId}
      (recorded : record (.evaluate "StaticMemberExpression" s) a = .ok () b)
      (object : m.expression x b = .ok (.object o) c) :
      Designates m (.member s x name isOptional) a o name c
  | index {s : Span} {x y : Expr} {isOptional : Bool} {a b c d e : Agent} {o : ObjectId} {v : Value}
      {k : PropertyKey}
      (recorded : record (.evaluate "ComputedMemberExpression" s) a = .ok () b)
      (object : m.expression x b = .ok (.object o) c) (name : m.expression y c = .ok v d)
      (key : m.toKey v d = .ok k e) :
      Designates m (.index s x y isOptional) a o k e
  | wrapped {s : Span} {w : Wrapper} {e : Expr} {a b : Agent} {o : ObjectId} {k : PropertyKey}
      (content : Designates m e a o k b) : Designates m (.wrapped s w e) a o k b

variable {m : Machine} {e : Expr} {a b c : Agent} {o : ObjectId} {k : PropertyKey}

/-- A member is found as a place. -/
theorem Designates.referenceOf? (h : m.Designates e a o k b) :
    m.referenceOf? e a = .ok (some (.property (.object o) k)) b := by
  induction h with
  | member recorded object =>
    exact (bind_ok recorded).trans (bind_ok object)
  | index recorded object name key =>
    exact (bind_ok recorded).trans ((bind_ok object).trans ((bind_ok name).trans (bind_ok key)))
  | wrapped content ih => exact ih

end Machine

/-- The message of the error for a property that an object does not give up. -/
def Agent.undeletable (a : Agent) (o : ObjectId) (k : PropertyKey) : String :=
  "Cannot delete property '" ++ k.display ++ "' of " ++ objectWord a (.object o)

namespace Agent

variable {a : Agent} {o : ObjectId} {k : PropertyKey}

/-- A property that an object gives up is lost. -/
theorem loses_modifyObject (h : (a.object o).Yields k) :
    a.Loses o k (a.modifyObject o fun x => (x.delete k).2) := by
  by_cases ho : o.index < a.objects.size
  · have hget : ∀ i, (a.modifyObject o fun x => (x.delete k).2).object i
        = if o.index = i.index then ((a.object o).delete k).2 else a.object i := by
      intro i
      rw [modifyObject_eq ho, object_eq_getD, Array.getElem?_setIfInBounds, if_pos ho]
      split
      · rfl
      · exact (object_eq_getD a i).symm
    refine ⟨?_, fun i hi => ?_, Array.size_modify .., rfl⟩
    · rw [hget, if_pos rfl]
      exact (Object.delete_of_yields h).2
    · rw [hget, if_neg]
      intro heq
      exact hi (congrArg ObjectId.mk heq.symm)
  · have hempty : a.object o = .empty := by
      rw [object_eq_getD, Array.getElem?_eq_none (Nat.le_of_not_lt ho), Option.getD_none]
    rw [modifyObject_of_same fun x hx => absurd (Array.getElem?_eq_some_iff.mp hx).1 ho]
    refine ⟨.of_none ?_, fun _ _ => rfl, rfl, rfl⟩
    rw [hempty]
    rfl

/-- An object that does not give up a property stays as it is. -/
theorem modifyObject_delete (h : ¬(a.object o).Yields k) :
    (a.modifyObject o fun x => (x.delete k).2) = a := by
  refine modifyObject_of_same fun x hx => ?_
  have hobject : a.object o = x := by rw [object_eq_getD, hx, Option.getD_some]
  rw [hobject] at h
  exact (Object.delete_of_not_yields h).2

end Agent

namespace Eval

variable {a : Agent} {o : ObjectId} {k : PropertyKey}

theorem deleteReference_of_yields (h : (a.object o).Yields k) :
    deleteReference (.property (.object o) k) a
      = .ok true (a.modifyObject o fun x => (x.delete k).2) := by
  have hdelete := deleteProperty_object o k a
  rw [(Object.delete_of_yields h).1] at hdelete
  exact bind_ok hdelete

theorem deleteReference_of_not_yields (h : ¬(a.object o).Yields k) :
    deleteReference (.property (.object o) k) a
      = .error (.thrown (.object ⟨a.objects.size⟩)) (a.withError .typeError (a.undeletable o k)) := by
  have hdelete := deleteProperty_object o k a
  rw [(Object.delete_of_not_yields h).1, Agent.modifyObject_delete h] at hdelete
  exact bind_ok hdelete

end Eval

variable {n : Nat} {d e : Expr} {s : Span} {a b c : Agent} {o : ObjectId} {k : PropertyKey}

/-- Deleting begins with an event. -/
theorem run_delete (hd : d.inner = .unary s .delete e)
    (hb : record (.evaluate "UnaryExpression" s) a = .ok () b) :
    Task.run (n + 1) (.expression d) a = (Machine.ofDepth n).unary .delete e b := by
  obtain ⟨r, hr⟩ := evaluates_of_record hb
  change (Machine.ofDepth n).evaluateExpression d a = _
  unfold Machine.evaluateExpression
  rw [hd]
  exact (bind_ok hb).trans (bind_ok (realm_eq hr))

/-- **The law of deletion.**  A member of an object is deleted: the object has lost the property then,
and no other property of it or of any other object has changed.  If it does not give it up, there is a
new error, and nothing else has happened. -/
theorem delete_member (hd : d.inner = .unary s .delete e)
    (hb : record (.evaluate "UnaryExpression" s) a = .ok () b)
    (he : (Machine.ofDepth n).Designates e b o k c) :
    ((c.object o).Yields k → ∃ c', Task.run (n + 1) (.expression d) a = .ok (.boolean true) c' ∧
      c.Loses o k c') ∧
    ∀ p, (c.object o).ownProperty? k = some p → p.isConfigurable = false →
      Task.run (n + 1) (.expression d) a = .error (.thrown (.object ⟨c.objects.size⟩))
        (c.withError .typeError (c.undeletable o k)) := by
  rw [run_delete hd hb]
  unfold Machine.unary
  dsimp only
  rw [bind_ok he.referenceOf?]
  constructor
  · intro h
    exact ⟨_, bind_ok (deleteReference_of_yields h), Agent.loses_modifyObject h⟩
  · intro p hp hfixed
    refine bind_error (deleteReference_of_not_yields fun h => ?_)
    rw [h p hp] at hfixed
    cases hfixed

/-- An agent that evaluates expressions without names. -/
def Agent.nameless : Agent :=
  { Agent.empty with
    realms := #[⟨.ofString "", .expression (.constant default .null), default, [], false, []⟩]
    contexts := [⟨⟨0⟩, default⟩] }

/-- An array literal with an element, and the array. -/
def Expr.single : Expr := .array ⟨8, 14⟩ [.item (.constant ⟨9, 13⟩ .null)]

/-- The array of a single element. -/
def Object.single : Object := .ofKind (.array (.ofList [.null]))

theorem Object.yields_single : Object.single.Yields (.ofNat 0) := by
  intro p hp
  unfold ownProperty? at hp
  rw [PropertyKey.arrayIndex?_ofNat (by decide)] at hp
  cases hp
  rfl

/-- The element of an array is deleted, and its length is not. -/
theorem delete_member_single :
    let m := Machine.ofDepth 2
    let element : Expr :=
      .wrapped ⟨7, 20⟩ .parentheses (.index ⟨8, 19⟩ .single (.constant ⟨15, 18⟩ (.string "0")) false)
    let length : Expr := .member ⟨8, 21⟩ .single "length" false
    let b := { Agent.nameless with objects := #[.single] }
    (m.Designates element .nameless ⟨0⟩ (.ofNat 0) b ∧
      ∃ c, Task.run 3 (.expression (.unary ⟨0, 20⟩ .delete element)) .nameless = .ok (.boolean true) c ∧
        b.Loses ⟨0⟩ (.ofNat 0) c) ∧
    m.Designates length .nameless ⟨0⟩ "length" b ∧
      Task.run 3 (.expression (.unary ⟨0, 21⟩ .delete length)) .nameless
        = .error (.thrown (.object ⟨1⟩)) (b.withError .typeError (b.undeletable ⟨0⟩ "length")) := by
  intro m element length b
  have helement : m.Designates element .nameless ⟨0⟩ (.ofNat 0) b := .wrapped (.index rfl rfl rfl rfl)
  have hlength : m.Designates length .nameless ⟨0⟩ "length" b := .member rfl rfl
  refine ⟨⟨helement, (delete_member (d := .unary ⟨0, 20⟩ .delete element) rfl rfl helement).1 ?_⟩,
    -- The first deletes the element, and the second is refused, as the length cannot be deleted.
    hlength, (delete_member (d := .unary ⟨0, 21⟩ .delete length) rfl rfl hlength).2
      (Object.lengthProperty (.ofList [.null]) "length") ?_ rfl⟩
  · exact Object.yields_single
  · have hindex : ("length" : PropertyKey).arrayIndex? = none := by decide +kernel
    change Object.single.ownProperty? "length" = _
    unfold Object.ownProperty?
    rw [hindex]
    rfl

/-- **A chain is evaluated, and nothing is deleted.** -/
theorem delete_chain (hd : d.inner = .unary s .delete e) {place : Span} {link : Expr}
    (he : e.inner = .chain place link)
    (hb : record (.evaluate "UnaryExpression" s) a = .ok () b) :
    Task.run (n + 1) (.expression d) a = (do
      let _ ← (Machine.ofDepth n).expression e
      return .boolean true : Eval Value) b := by
  rw [run_delete hd hb]
  unfold Machine.unary Machine.referenceOf?
  rw [he]
  rfl

/-- The element of an array that a chain reads is still there after the chain has been deleted with
success. -/
theorem delete_chain_keeps :
    let link : Expr := .index ⟨8, 21⟩ .single (.constant ⟨17, 20⟩ (.string "0")) true
    (∃ v b, Task.run 4 (.link link) .nameless = .ok (some (v, .object ⟨0⟩)) b) ∧
    ∃ b, Task.run 6 (.expression (.unary ⟨0, 21⟩ .delete (.chain ⟨8, 21⟩ link))) .nameless
        = .ok (.boolean true) b ∧
      ((b.object ⟨0⟩).ownProperty? (.ofNat 0)).any (·.isConfigurable) = true := by
  intro link
  have hlink : ((Task.run 4 (.link link)).run' .nameless).join.any (·.2.isStrictly (.object ⟨0⟩)) = true := by
    decide +kernel
  have hchain : ((Task.run 5 (.expression (.chain ⟨8, 21⟩ link))).run' .nameless).isSome = true := by
    decide +kernel
  have hkeeps : ((((Task.run 5 (.expression (.chain ⟨8, 21⟩ link))).after .nameless).object
      ⟨0⟩).ownProperty? (.ofNat 0)).any (·.isConfigurable) = true := by decide +kernel
  -- The chain has a value with a receiver, and yet the element is there afterwards.
  constructor
  · unfold EStateM.run' EStateM.run at hlink
    cases hrun : Task.run 4 (.link link) .nameless with
    | error i b =>
      rw [hrun] at hlink
      cases hlink
    | ok x b =>
      rw [hrun] at hlink
      cases x with
      | none => cases hlink
      | some x =>
        obtain ⟨v, this⟩ := x
        cases this with
        | object o => exact ⟨v, b, by rw [eq_of_beq (a := o) (b := ⟨0⟩) hlink]⟩
        | _ => cases hlink
  · obtain ⟨v, b, hrun⟩ := ok_of_run' hchain
    rw [after_ok hrun] at hkeeps
    refine ⟨b, ?_, hkeeps⟩
    exact (delete_chain (n := 5) (d := .unary ⟨0, 21⟩ .delete (.chain ⟨8, 21⟩ link)) rfl rfl
      rfl).trans (bind_ok hrun)

end Scriptlet
