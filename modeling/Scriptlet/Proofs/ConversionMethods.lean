import Scriptlet.Proofs.Deletion
import Scriptlet.Proofs.ListedMethods

/-!
# Methods that convert objects

An object that is needed as a number or a text is asked for another value.  The ordinary rule for
that tries two names, in an order that depends on what is needed: each stands for a property of the
object's own or else for the method that all objects of its kind have under it, and the first result
that is no object is the value.  If there is none, the conversion fails.

Here an object's own properties come first under both names, and it is only after them that the
common method is asked for a text.  So a conversion does not fail for want of a result, and it goes
by the ordinary rule otherwise, unless a text is needed of an object that has a property of its own
only under the other name.

## Main definitions

* `Converter`, `Object.ownConverter?`, `Object.converter?` — what a name stands for in an object.
* `Machine.firstPrimitive` — names tried in turn.
* `Machine.ordinaryPrimitive` — the ordinary rule.
* `Machine.commonText` — the text by the common method.

## Main results

* `primitiveOf_honours_own` — own properties first, then the common method.
* `primitiveOf_prefers_own` — an own property that the ordinary rule does not come to, and one for
  which it fails.
-/

namespace Scriptlet

open Eval

/-! ### What names stand for -/

/-- What a name stands for in an object that is converted. -/
inductive Converter
  /-- A property of its own, whether it can be called or not. -/
  | own (v : Value)
  /-- A method that all objects of its kind have. -/
  | common (b : Builtin)

/-- The names of the methods that convert an object, in the order in which they are tried. -/
def Hint.names (hint : Hint) : List String := [hint.methods.1, hint.methods.2]

/-- The value, unless it is an object. -/
def Value.primitive? : Value → Option Value
  | .object _ => none
  | v => some v

namespace Object

/-- What a name stands for if only an object's own properties count. -/
def ownConverter? (x : Object) (name : String) : Option Converter := (x.ownValue? name).map .own

/-- What a name stands for: a property of the object's own or else a method of its kind. -/
def converter? (x : Object) (name : String) : Option Converter :=
  x.ownConverter? name <|> (x.method? name).map .common

/-- The method of its kind that gives an object's text. -/
def textMethod (x : Object) : Builtin := (x.method? "toString").getD (.objectMethod .toString)

variable {x : Object}

/-- **Every kind of object has a method for the text.** -/
theorem method?_toString (x : Object) : x.method? "toString" = some x.textMethod := by
  obtain ⟨kind, isExtensible, properties⟩ := x
  cases kind <;> rfl

/-- No kind of object has a method for the value. -/
theorem method?_valueOf (x : Object) : x.method? "valueOf" = none := by
  obtain ⟨kind, isExtensible, properties⟩ := x
  cases kind <;> rfl

theorem converter?_valueOf (x : Object) : x.converter? "valueOf" = x.ownConverter? "valueOf" := by
  rw [converter?, method?_valueOf]
  cases x.ownConverter? "valueOf" <;> rfl

theorem converter?_of_own {name : String} {v : Value} (h : x.ownValue? name = some v) :
    x.converter? name = x.ownConverter? name := by
  rw [converter?, ownConverter?, h]
  rfl

theorem converter?_toString (h : x.ownValue? "toString" = none) :
    x.converter? "toString" = some (.common x.textMethod) := by
  rw [converter?, ownConverter?, h, method?_toString]
  rfl

end Object

/-! ### The rules -/

namespace Machine

/-- What comes of converting an object with what a name stands for, if it is no object. -/
def convertWith (m : Machine) (o : ObjectId) : Converter → Eval (Option Value)
  | .own v => do
    match (← get).function? v with
    | none => return none
    | some f => return (← m.call f (.object o) []).primitive?
  | .common b => return (← m.callBuiltin b (.object o) []).primitive?

/-- What comes of a name, if it stands for something in the object. -/
def convertNamed (m : Machine) (find : Object → String → Option Converter) (o : ObjectId)
    (name : String) : Eval (Option Value) := do
  match find (← object o) name with
  | none => return none
  | some c => m.convertWith o c

/-- Names are tried in turn, and something else is done if nothing comes of any. -/
def firstPrimitive (m : Machine) (find : Object → String → Option Converter) (o : ObjectId)
    (otherwise : Eval Value) : List String → Eval Value
  | [] => otherwise
  | name :: names => do
    match ← m.convertNamed find o name with
    | some v => return v
    | none => m.firstPrimitive find o otherwise names

/-- The ordinary rule: own and common methods are tried, and it is an error if nothing comes of
them. -/
def ordinaryPrimitive (m : Machine) (o : ObjectId) (hint : Hint) : Eval Value :=
  m.firstPrimitive Object.converter? o
    (raise .typeError "Cannot convert object to primitive value") hint.names

/-- What the common method for the text gives. -/
def commonText (m : Machine) (o : ObjectId) : Eval Value := do
  m.callBuiltin (← object o).textMethod (.object o) []

end Machine

variable {m : Machine} {o : ObjectId} {a b : Agent}

/-! ### The common method -/

/-- **The text of an object is what the method of its kind gives.** -/
theorem commonText_eq (m : Machine) (o : ObjectId) (a : Agent) :
    m.commonText o a = (do return Value.text (← m.contentText o) : Eval Value) a := by
  have hmethod : m.commonText o a = m.callBuiltin (a.object o).textMethod (.object o) [] a := rfl
  -- The text of a function is taken from the function itself, by the method as well as by default.
  have hfunction : (a.object o).isFunction = true →
      m.functionMethod .toString (.object o) [] a = .ok (.ofString (a.functionSource o)) a := by
    intro h
    unfold Machine.functionMethod
    rw [bind_ok (get_apply a), Agent.function?, if_pos h]
    rfl
  rw [hmethod, Object.textMethod, Object.method?]
  unfold Machine.contentText
  have hcontent (p : Object → Eval Text) (f : Text → Eval Value) :
      ((object o >>= p) >>= f) a = (p (a.object o) >>= f) a := rfl
  rw [hcontent]
  cases hkind : (a.object o).kind with
  | ordinary =>
    change EStateM.Result.ok (Value.ofString ("[object " ++ kindWord a (.object o) ++ "]")) a = _
    rw [kindWord, hkind]
    rfl
  | array e =>
    change m.arrayMethod .toString (.object o) [] a = _
    unfold Machine.arrayMethod
    rw [bind_ok (thisArray_eq (by rw [Object.isArray, hkind]) _), bind_ok (elementsOf_apply o a)]
  | closure c => exact hfunction (by rw [Object.isFunction, hkind])
  | builtin b => exact hfunction (by rw [Object.isFunction, hkind])
  | error kind => rfl

/-- What the common method gives is a text. -/
theorem commonText_ok {v : Value} (h : m.commonText o a = .ok v b) : ∃ t, v = .text t := by
  rw [commonText_eq] at h
  obtain ⟨t, c, -, ht⟩ := bind_eq_ok h
  cases ht
  exact ⟨t, rfl⟩

/-! ### Names in turn -/

section Names

variable {find : Object → String → Option Converter} {otherwise : Eval Value} {name : String}
  {names : List String}

theorem convertNamed_apply : m.convertNamed find o name a
    = (match find (a.object o) name with
      | none => pure none
      | some c => m.convertWith o c) a := rfl

/-- A name that stands for nothing is passed over. -/
theorem firstPrimitive_missing (h : find (a.object o) name = none) :
    m.firstPrimitive find o otherwise (name :: names) a
      = m.firstPrimitive find o otherwise names a := by
  have hnone : m.convertNamed find o name a = .ok none a := by
    rw [convertNamed_apply, h]
    rfl
  rw [Machine.firstPrimitive, bind_ok hnone]

/-- Names that stand for the same are tried alike. -/
theorem firstPrimitive_congr {find' : Object → String → Option Converter}
    (h : find (a.object o) name = find' (a.object o) name)
    (hrest : ∀ b, m.firstPrimitive find o otherwise names b
      = m.firstPrimitive find' o otherwise names b) :
    m.firstPrimitive find o otherwise (name :: names) a
      = m.firstPrimitive find' o otherwise (name :: names) a := by
  have hnamed : m.convertNamed find o name a = m.convertNamed find' o name a := by
    rw [convertNamed_apply, convertNamed_apply, h]
  rw [Machine.firstPrimitive, Machine.firstPrimitive, bind_congr_left hnamed]
  refine bind_congr_ok fun x b _ => ?_
  cases x with
  | none => exact hrest b
  | some v => rfl

/-- The common method is the last that is tried: its result is a text. -/
theorem firstPrimitive_toString (h : (a.object o).ownValue? "toString" = none) :
    m.firstPrimitive Object.converter? o otherwise ("toString" :: names) a = m.commonText o a := by
  have hnamed : m.convertNamed Object.converter? o "toString" a
      = (do return (← m.commonText o).primitive?) a := by
    rw [convertNamed_apply, Object.converter?_toString h]
    rfl
  rw [Machine.firstPrimitive, bind_congr_left hnamed]
  cases hcommon : m.commonText o a with
  | error i b => rw [bind_error (bind_error hcommon)]
  | ok v b =>
    obtain ⟨t, rfl⟩ := commonText_ok hcommon
    have hprimitive : (do return (← m.commonText o).primitive?) a = .ok (some (.text t)) b :=
      bind_ok hcommon
    rw [bind_ok hprimitive]
    rfl

end Names

/-- What a name comes to if it stands for an object's own property. -/
theorem convertedBy_eq (m : Machine) (o : ObjectId) (name : String) :
    m.convertedBy o name = m.convertNamed Object.ownConverter? o name := by
  funext a
  refine bind_congr_ok fun x b _ => ?_
  unfold Object.ownConverter?
  cases x.ownValue? name with
  | none => rfl
  | some method =>
    refine bind_congr_ok fun c _ _ => ?_
    cases c.function? method with
    | none => rfl
    | some f =>
      refine bind_congr_ok fun v _ _ => ?_
      cases v <;> rfl

/-- **Own properties are tried first, and then the common method.** -/
theorem primitiveOf_eq (m : Machine) (o : ObjectId) (hint : Hint) (a : Agent) :
    m.primitiveOf o hint a
      = m.firstPrimitive Object.ownConverter? o (m.commonText o) hint.names a := by
  unfold Machine.primitiveOf
  rw [convertedBy_eq, convertedBy_eq]
  refine bind_congr_ok fun x b _ => ?_
  cases x with
  | some v => rfl
  | none =>
    refine bind_congr_ok fun y c _ => ?_
    cases y with
    | some v => rfl
    | none => exact (commonText_eq m o c).symm

/-- An object without methods of its own has the text that the method of its kind gives. -/
theorem primitiveOf_common (htext : (a.object o).ownValue? "toString" = none)
    (hvalue : (a.object o).ownValue? "valueOf" = none) (hint : Hint) :
    m.primitiveOf o hint a = m.commonText o a := by
  have hmissing : ∀ name : String, (a.object o).ownValue? name = none →
      (a.object o).ownConverter? name = none := by
    intro name h
    rw [Object.ownConverter?, h]
    rfl
  rw [primitiveOf_eq]
  cases hint with
  | text =>
    exact (firstPrimitive_missing (hmissing _ htext)).trans (firstPrimitive_missing (hmissing _ hvalue))
  | number =>
    exact (firstPrimitive_missing (hmissing _ hvalue)).trans (firstPrimitive_missing (hmissing _ htext))

/-- **A conversion goes by the names in turn**, each of which stands for an own property or the
common method, unless an own method for the value comes before the common method for the text. -/
theorem primitiveOf_converters {hint : Hint}
    (h : hint = .number ∨ ((a.object o).ownValue? "toString").isSome = true ∨
      (a.object o).ownValue? "valueOf" = none) :
    m.primitiveOf o hint a
      = m.firstPrimitive Object.converter? o (m.commonText o) hint.names a := by
  -- The method that is asked last is the default one if the object has none of its own.
  have htext : ∀ b, m.firstPrimitive Object.ownConverter? o (m.commonText o) ["toString"] b
      = m.firstPrimitive Object.converter? o (m.commonText o) ["toString"] b := by
    intro b
    cases hown : (b.object o).ownValue? "toString" with
    | none =>
      rw [firstPrimitive_toString hown]
      refine firstPrimitive_missing ?_
      rw [Object.ownConverter?, hown]
      rfl
    | some v => exact firstPrimitive_congr (Object.converter?_of_own hown).symm fun _ => rfl
  have hvalue : ∀ b, m.firstPrimitive Object.ownConverter? o (m.commonText o) ["valueOf"] b
      = m.firstPrimitive Object.converter? o (m.commonText o) ["valueOf"] b := fun b =>
    firstPrimitive_congr (Object.converter?_valueOf _).symm fun _ => rfl
  cases hint with
  | number =>
    rw [primitiveOf_eq]
    exact firstPrimitive_congr (Object.converter?_valueOf _).symm htext
  | text =>
    cases hown : (a.object o).ownValue? "toString" with
    | some v =>
      rw [primitiveOf_eq]
      exact firstPrimitive_congr (Object.converter?_of_own hown).symm hvalue
    | none =>
      obtain h | h | h := h
      -- Only the hint for a text asks the default before an own method for the value.
      · cases h
      · rw [hown] at h
        cases h
      · rw [primitiveOf_common hown h]
        exact (firstPrimitive_toString hown).symm

/-! ### The common method as a property -/

/-- Reading the property that is the common method makes the function for it, if there is none. -/
theorem getFrom_toString (h : (a.object o).ownValue? "toString" = none) :
    getFrom o "toString" a = method (a.object o).textMethod a := by
  have hfeature : (a.object o).feature? "toString" = none := by
    have hnamed : ("toString" : PropertyKey).isNamed "name" = false ∧
        ("toString" : PropertyKey).isNamed "length" = false ∧
        ("toString" : PropertyKey).isNamed "message" = false := by decide +kernel
    rw [Object.feature?, hnamed.1, hnamed.2.1, hnamed.2.2]
    cases (a.object o).kind <;> rfl
  have hname : (Text.ofString "toString").toString = "toString" := by decide +kernel
  rw [getFrom_common h hfeature, hname, Object.method?_toString]

/-- The agent after reading the property has the function for the common method, and at most this is
new. -/
theorem after_getFrom_toString (ha : a.ListsMethods)
    (h : (a.object o).ownValue? "toString" = none) :
    ∃ f b, getFrom o "toString" a = .ok (.object f) b ∧
      (b.object f).kind = .builtin (a.object o).textMethod ∧
      (b = a ∨ b = { a with
        objects := a.objects.push (.ofKind (.builtin (a.object o).textMethod))
        methods := ((a.object o).textMethod, ⟨a.objects.size⟩) :: a.methods }) := by
  rw [getFrom_toString h]
  obtain ⟨f, hfind, hmethod⟩ | ⟨-, hmethod⟩ := method_cases (a.object o).textMethod a
  · refine ⟨f, a, hmethod, ?_, .inl rfl⟩
    obtain ⟨x, hx, hkind⟩ := ha _ (List.mem_of_find?_eq_some hfind)
    rw [Agent.object_eq_getD, hx]
    exact hkind
  · refine ⟨⟨a.objects.size⟩, _, hmethod, ?_, .inr rfl⟩
    rw [Agent.object_eq_getD, Array.getElem?_push_size]
    rfl

/-- The call of a method that a member stands for. -/
theorem value_call_of_designates {callee : Expr} {k : PropertyKey} {f : ObjectId} {c : Agent}
    (h : m.Designates callee a o k b) (hread : getFrom o k b = .ok (.object f) c)
    (hf : (c.object f).isFunction = true) (s : Span) (isOptional : Bool) :
    m.value (.call s callee [] isOptional) a = m.call f (.object o) [] c := by
  have hcallee : m.callee callee a = .ok (.object f, .object o) c := by
    unfold Machine.callee
    rw [bind_ok h.referenceOf?]
    exact bind_ok hread
  have hfunction : requireFunction (.object f) callee.span c = .ok f c := by
    unfold requireFunction
    rw [bind_ok (get_apply c), Agent.function?, if_pos hf]
    rfl
  rw [Machine.value, bind_ok hcallee]
  exact bind_ok hfunction

/-- The text of an object by the constructor of texts, if its conversion is by the common method. -/
theorem string_of_common {m' : Machine} (h : m.run (.primitive o .text) a = m'.commonText o a)
    (this : Value) :
    m.callBuiltin (.constructor .string) this [.object o] a = m'.commonText o a := by
  have hstring : m.callBuiltin (.constructor .string) this [.object o] a
      = (m.toText (.object o) >>= fun t => pure (Value.text t)) a := rfl
  rw [hstring]
  cases hcommon : m'.commonText o a with
  | error i b =>
    rw [hcommon] at h
    have htext : m.toText (.object o) a = .error i b := bind_error h
    rw [bind_error htext]
  | ok v b =>
    obtain ⟨t, rfl⟩ := commonText_ok hcommon
    rw [hcommon] at h
    have htext : m.toText (.object o) a = .ok t b := bind_ok h
    rw [bind_ok htext]
    rfl

/-- **The call of the method as a property** is the conversion by the constructor of texts. -/
theorem call_eq_string {n : Nat} {callee : Expr} {a₀ : Agent} (ha : a.ListsMethods)
    (ho : o.index < a.objects.size) (htext : (a.object o).ownValue? "toString" = none)
    (hvalue : (a.object o).ownValue? "valueOf" = none)
    (h : (Machine.ofDepth n).Designates callee a₀ o "toString" a) (s : Span) (isOptional : Bool)
    (this : Value) :
    (Machine.ofDepth n).value (.call s callee [] isOptional) a₀
      = (Machine.ofDepth n).callBuiltin (.constructor .string) this [.object o]
        ((getFrom o "toString").after a) := by
  obtain ⟨f, b, hread, hkind, hb⟩ := after_getFrom_toString ha htext
  -- Making the function for the method leaves the object as it is.
  have hsame : b.object o = a.object o := by
    obtain rfl | rfl := hb
    · rfl
    · rw [Agent.object_eq_getD, Agent.object_eq_getD, Array.getElem?_push_lt ho,
        Array.getElem?_eq_getElem ho]
  rw [after_ok hread, value_call_of_designates h hread (by rw [Object.isFunction, hkind])]
  cases n with
  | zero => rfl
  | succ n =>
    have hcall : (Machine.ofDepth (n + 1)).call f (.object o) [] b
        = (Machine.ofDepth n).commonText o b := by
      change (Machine.ofDepth n).callFunction f (.object o) [] b = _
      unfold Machine.callFunction Machine.commonText
      rw [bind_ok (object_apply f b), bind_ok (object_apply o b), hkind, hsame]
    rw [← hsame] at htext hvalue
    exact hcall.trans (string_of_common (primitiveOf_common htext hvalue .text) this).symm

/-! ### Conversions -/

/-- **An object is converted by its own methods, and then by that of its kind.**  The names are
tried in their order; each stands for a property of the object's own, if there is one, and what
cannot be called or gives an object is passed over.  If nothing comes of them the result is the text
by the common method, and no error is thrown.  The names may as well stand for common methods where
there is no own property, unless a text is needed and the object has a property of its own only under
the name for the value.

The text of an object without such properties is what a call of the common method as a property gives,
in the state in which the property has been read; reading it makes the function for the method, if
there is none, and does nothing else.  All that is assumed of the state is that functions for methods
are those methods, and so they are in whatever agent there is. -/
theorem primitiveOf_honours_own (o : ObjectId) :
    (∀ (m : Machine) (hint : Hint) (a : Agent),
      m.step (.primitive o hint) a
        = m.firstPrimitive Object.ownConverter? o (m.commonText o) hint.names a ∧
      ((hint = .number ∨ ((a.object o).ownValue? "toString").isSome = true ∨
          (a.object o).ownValue? "valueOf" = none) →
        m.step (.primitive o hint) a
          = m.firstPrimitive Object.converter? o (m.commonText o) hint.names a)) ∧
    (∀ (n : Nat) (s : Span) (callee : Expr) (isOptional : Bool) (this : Value) (a₀ a : Agent),
      a.ListsMethods → o.index < a.objects.size → (a.object o).ownValue? "toString" = none →
      (a.object o).ownValue? "valueOf" = none →
      (Machine.ofDepth n).Designates callee a₀ o "toString" a →
      let b := (getFrom o "toString").after a
      (Machine.ofDepth n).value (.call s callee [] isOptional) a₀
          = (Machine.ofDepth n).callBuiltin (.constructor .string) this [.object o] b ∧
        (b = a ∨ b = { a with
          objects := a.objects.push (.ofKind (.builtin (a.object o).textMethod))
          methods := ((a.object o).textMethod, ⟨a.objects.size⟩) :: a.methods })) ∧
    (∀ (n : Nat) {α : Type} (t : Task α) (a : Agent), a.ListsMethods →
      ((Task.run n t).after a).ListsMethods) ∧
    ∀ (n : Nat) (isVerbose : Bool) (requests : List (Request × Tidying)),
      (Agent.ofRequests n isVerbose requests).ListsMethods := by
  refine ⟨fun m hint a => ⟨primitiveOf_eq m o hint a, primitiveOf_converters⟩, ?_,
    fun n _ t a => listsMethods_run n t a, listsMethods_ofRequests⟩
  intro n s callee isOptional this a₀ a ha ho htext hvalue h
  refine ⟨call_eq_string ha ho htext hvalue h s isOptional this, ?_⟩
  obtain ⟨f, b, hread, -, hb⟩ := after_getFrom_toString ha htext
  rwa [after_ok hread]

/-- An agent that has an array with a method of its own for the value, the function that is this
method, and an object with a property of its own for the text that is no function. -/
def Agent.convertible : Agent :=
  { Agent.nameless with
    objects := #[{ Object.ofKind (.array (.ofList [.null, .boolean true])) with
        properties := #[.data "valueOf" (.object ⟨1⟩)] },
      .ofKind (.builtin (.arrayMethod .pop)),
      { Object.ofKind .ordinary with properties := #[.data "toString" .null] }] }

/-- A new array is converted to an empty text, which is what its method gives; a number is asked of
an array by its own method. -/
theorem primitiveOf_honours_own_array :
    let m := Machine.ofDepth 2
    let a : Agent := { Agent.nameless with objects := #[.ofKind (.array (.ofList []))] }
    let b := (getFrom ⟨0⟩ "toString").after a
    let callee : Expr := .member ⟨0, 11⟩ (.array ⟨0, 2⟩ []) "toString" false
    (a.ListsMethods ∧ (a.object ⟨0⟩).ownValue? "toString" = none ∧
      (a.object ⟨0⟩).ownValue? "valueOf" = none ∧ m.Designates callee .nameless ⟨0⟩ "toString" a ∧
      m.value (.call ⟨0, 13⟩ callee [] false) .nameless
        = m.callBuiltin (.constructor .string) .undefined [.object ⟨0⟩] b) ∧
    m.step (.primitive ⟨0⟩ .number) .convertible
      = m.firstPrimitive Object.converter? ⟨0⟩ (m.commonText ⟨0⟩) Hint.number.names .convertible := by
  intro m a b callee
  have hown : ∀ k : PropertyKey, k.arrayIndex? = none → k.isNamed "length" = false →
      (a.object ⟨0⟩).ownValue? k = none := by
    intro k hindex hlength
    change ((Object.ofKind (.array (.ofList []))).ownProperty? k).map _ = none
    unfold Object.ownProperty?
    rw [hindex, hlength]
    rfl
  have htext := hown "toString" (by decide +kernel) (by decide +kernel)
  have hvalue := hown "valueOf" (by decide +kernel) (by decide +kernel)
  have hlists : a.ListsMethods := nofun
  have hdesignates : m.Designates callee .nameless ⟨0⟩ "toString" a := .member rfl rfl
  have hhonours := primitiveOf_honours_own ⟨0⟩
  exact ⟨⟨hlists, htext, hvalue, hdesignates, (hhonours.2.1 2 ⟨0, 13⟩ callee false .undefined
      .nameless a hlists (by decide) htext hvalue hdesignates).1⟩,
    (hhonours.1 m .number .convertible).2 (.inl rfl)⟩

/-- A text is needed of an array: by the ordinary rule it is that of its two elements, but the
array's own method for the value comes first.  And where an object's own property for the text is no
function, the ordinary rule fails, but the object is converted. -/
theorem primitiveOf_prefers_own :
    let m := Machine.ofDepth 2
    let a := Agent.convertible
    ((m.step (.primitive ⟨0⟩ .text)).run' a).any (·.isStrictly (.boolean true)) = true ∧
      ((m.ordinaryPrimitive ⟨0⟩ .text).run' a).any (·.isStrictly (.ofString ",true")) = true ∧
      ((m.step (.primitive ⟨2⟩ .text)).run' a).any (·.isStrictly (.ofString "[object Object]")) = true ∧
      Throws (m.ordinaryPrimitive ⟨2⟩ .text) .typeError a := by
  refine ⟨by decide +kernel, by decide +kernel, by decide +kernel, ?_⟩
  have hthrows : (Machine.ofDepth 2).ordinaryPrimitive ⟨2⟩ .text .convertible
      = raise .typeError "Cannot convert object to primitive value" .convertible := rfl
  obtain ⟨o, b, hraise, h⟩ := throws_raise (α := Value) .typeError
    "Cannot convert object to primitive value" .convertible
  exact ⟨o, b, hthrows.trans hraise, h⟩

end Scriptlet
