import Scriptlet.Proofs.Tasks

/-!
# Related conversions and references

Conversions of corresponding values are related, and so are reading, assigning and deleting what is
at corresponding places.

## Main results

* `Machine.Agree.toNumber`, `Machine.Agree.toText`, `Machine.Agree.toKey` — conversions.
* `Machine.Agree.join`, `Machine.Agree.primitiveOf` — objects as texts and as other values.
* `Machine.Agree.isLess?`, `Machine.Agree.isLoosely` — comparison.
* `Related.readReference`, `Machine.Agree.writeReference`, `Related.deleteReference` — references.
-/

namespace Scriptlet

open Eval

variable {m m' : Machine} {φ : RealmId → Filing} {ρ : World} {K : Stack φ} {v w v' w' : Value}

/-! ### Values that are no objects -/

namespace Related

/-- The number of a value that is no object is the same: nothing in it belongs to a world. -/
theorem numberOf (hv : ρ.value v w) :
    Related ρ K (Eval.numberOf v) (Eval.numberOf w) fun _ x y => x = y := by
  unfold Eval.numberOf
  rw [hv.toNumber?]
  cases w.toNumber? with
  | none => exact raise _ _
  | some x => exact pure rfl

/-- So is its text. -/
theorem textOf (hv : ρ.value v w) :
    Related ρ K (Eval.textOf v) (Eval.textOf w) fun _ s t => s = t := by
  unfold Eval.textOf
  rw [hv.toText?]
  cases w.toText? with
  | none => exact raise _ _
  | some t => exact pure rfl

/-- Throwing the error for a text that would be too long. -/
theorem tooLong {α β : Type} {R : World → α → β → Prop} :
    Related ρ K (Eval.tooLong : Eval α) (Eval.tooLong : Eval β) R :=
  raise _ _

end Related

namespace Machine.Agree

/-! ### Conversions -/

/-- Values that are no objects are what they are converted to; objects are converted by a task. -/
theorem toPrimitive (h : m.Agree φ m') (hv : ρ.value v w) (hint : Hint) :
    Related ρ K (m.toPrimitive v hint) (m'.toPrimitive w hint) fun σ v w => σ.value v w := by
  cases hv with
  | object ho => exact h.run (.primitive ho)
  | _ => exact .pure (.refl rfl)

/-- Conversions give the same numbers. -/
theorem toNumber (h : m.Agree φ m') (hv : ρ.value v w) :
    Related ρ K (m.toNumber v) (m'.toNumber w) fun _ x y => x = y :=
  (h.toPrimitive hv _).bind fun _ hp => .numberOf hp

/-- Conversions give the same texts. -/
theorem toText (h : m.Agree φ m') (hv : ρ.value v w) :
    Related ρ K (m.toText v) (m'.toText w) fun _ s t => s = t :=
  (h.toPrimitive hv _).bind fun _ hp => .textOf hp

theorem toInteger (h : m.Agree φ m') (hv : ρ.value v w) :
    Related ρ K (m.toInteger v) (m'.toInteger w) fun _ x y => x = y := by
  refine (h.toNumber hv).bind fun _ hx => ?_
  subst hx
  exact .pure rfl

theorem toLength (h : m.Agree φ m') (hv : ρ.value v w) :
    Related ρ K (m.toLength v) (m'.toLength w) fun _ x y => x = y := by
  refine (h.toInteger hv).bind fun _ hx => ?_
  subst hx
  exact .pure rfl

/-- Conversions give the same keys. -/
theorem toKey (h : m.Agree φ m') (hv : ρ.value v w) :
    Related ρ K (m.toKey v) (m'.toKey w) fun _ k l => k = l := by
  refine (h.toPrimitive hv _).bind fun _ hp => ?_
  have htext := (Related.textOf (K := K) hp).bind fun _ ht =>
    Related.pure (R := fun _ k l => k = l) (congrArg PropertyKey.text ht)
  cases hp with
  | symbol s => exact .pure rfl
  | _ => exact htext

/-! ### Texts of objects -/

/-- A round takes the same element on both sides, if it is still there. -/
theorem joinNext (h : m.Agree φ m') {o p : ObjectId} (hop : ρ.object o p) (separator : Text)
    (length : Nat) (j : Joining) :
    Related ρ K (m.joinNext o separator length j) (m'.joinNext p separator length j)
      fun σ r s => Sum.LiftRel (fun j k => σ.object o p ∧ j = k) (· = ·) r s := by
  refine .get fun a b hab => ?_
  obtain ⟨h1, h2⟩ | ⟨⟨i, v⟩, ⟨_, w⟩, h1, h2, rfl, hvw⟩ :=
    Option.rel_cases ((hab.elements hop).nextPresent? j.next)
  · rw [h1, h2]
    exact .pure (.inr rfl)
  · rw [h1, h2]
    dsimp only at hvw ⊢
    split
    · exact .pure (.inr rfl)
    rw [hvw.isNullish]
    split
    · exact .pure (.inl ⟨hop, rfl⟩)
    refine (h.toText hvw).bind fun hle ht => ?_
    subst ht
    split
    · exact .tooLong
    · exact .pure (.inl ⟨hle.object hop, rfl⟩)

/-- The length that is read at the beginning is the same. -/
theorem joinElements (h : m.Agree φ m') {o p : ObjectId} (hop : ρ.object o p) (separator : Text) :
    Related ρ K (m.joinElements o separator) (m'.joinElements p separator)
      fun _ s t => s = t := by
  refine .get fun a b hab => ?_
  dsimp only
  rw [(hab.elements hop).length_eq]
  split
  · exact .tooLong
  · refine .iterate (I := fun σ j k => σ.object o p ∧ j = k) (fun _ hI => ?_) _ ⟨hop, rfl⟩
    obtain ⟨hop, rfl⟩ := hI
    exact h.joinNext hop _ _ _

/-- **The texts of corresponding arrays are the same.** -/
theorem join (h : m.Agree φ m') {o p : ObjectId} (hop : ρ.object o p) (separator : Text) :
    Related ρ K (m.join o separator) (m'.join p separator) fun _ s t => s = t := by
  refine .get fun a b hab => ?_
  rw [hab.isJoining hop]
  split
  · exact .pure rfl
  · exact .whileJoining hop (h.joinElements hop separator)

/-- A part of an error's text is that of the property, or what stands for a missing one. -/
theorem errorPart (h : m.Agree φ m') {o p : ObjectId} (hop : ρ.object o p) (name : String)
    (missing : Text) :
    Related ρ K (m.errorPart o name missing) (m'.errorPart p name missing) fun _ s t => s = t := by
  refine (Related.getFrom hop name).bind fun _ hv => ?_
  have htext := fun {K : Stack φ} => h.toText (K := K) hv
  cases hv with
  | undefined => exact .pure rfl
  | _ => exact htext

/-- An error's text consists of its name and its message. -/
theorem errorText (h : m.Agree φ m') {o p : ObjectId} (hop : ρ.object o p) :
    Related ρ K (m.errorText o) (m'.errorText p) fun _ s t => s = t := by
  refine (h.errorPart hop "name" "Error").bind fun hle hn => ?_
  refine (h.errorPart (hle.object hop) "message" .empty).bind fun _ hm => ?_
  subst hn hm
  exact .pure rfl

/-- What an object is shown as depends on its kind. -/
theorem contentText (h : m.Agree φ m') {o p : ObjectId} (hop : ρ.object o p) :
    Related ρ K (m.contentText o) (m'.contentText p) fun _ s t => s = t := by
  refine (Related.object hop).bind fun {σ x y} hle hxy => ?_
  have hsource : Related σ K
      (do return Text.ofString ((← get).functionSource o) : Eval Text)
      (do return Text.ofString ((← get).functionSource p)) fun _ s t => s = t :=
    .get fun a b hab => .pure (by rw [hab.functionSource (hle.object hop)])
  have hk := hxy.kind
  generalize x.kind = k, y.kind = l at hk
  cases hk with
  | ordinary => exact .pure rfl
  | array _ => exact h.join (hle.object hop) _
  | closure _ => exact hsource
  | builtin _ => exact hsource
  | error _ => exact h.errorText (hle.object hop)

/-- The own method is a function on both sides or on neither. -/
theorem convertedBy (h : m.Agree φ m') {o p : ObjectId} (hop : ρ.object o p) (name : String) :
    Related ρ K (m.convertedBy o name) (m'.convertedBy p name) fun σ v w => σ.value? v w := by
  refine (Related.object hop).bind fun {σ x y} hle hxy => ?_
  obtain ⟨h1, h2⟩ | ⟨f, g, h1, h2, hfg⟩ := Option.rel_cases (hxy.ownValue? name)
  · rw [h1, h2]
    exact .pure .none
  · rw [h1, h2]
    refine .noting fun a b hab => ?_
    obtain ⟨τ, ext, hagree, hf⟩ := hab.function? hfg
    refine ⟨τ, ext, hagree, ?_⟩
    obtain ⟨h3, h4⟩ | ⟨q, r, h3, h4, hqr⟩ := Option.rel_cases hf
    · rw [h3, h4]
      exact .pure .none
    · rw [h3, h4]
      have hop' := ext.le.object (hle.object hop)
      refine (h.call hqr (.object hop') .nil).bind fun _ hr => ?_
      cases hr with
      | object _ => exact .pure .none
      | _ => exact .pure (.some (.refl rfl))

/-- **The values that corresponding objects stand for correspond.** -/
theorem primitiveOf (h : m.Agree φ m') {o p : ObjectId} (hop : ρ.object o p) (hint : Hint) :
    Related ρ K (m.primitiveOf o hint) (m'.primitiveOf p hint) fun σ v w => σ.value v w := by
  refine (h.convertedBy hop _).bind fun hle hc => ?_
  cases hc with
  | some hv => exact .pure hv
  | none =>
    refine (h.convertedBy (hle.object hop) _).bind fun hle' hc => ?_
    cases hc with
    | some hv => exact .pure hv
    | none =>
      refine (h.contentText (hle'.object (hle.object hop))).bind fun _ ht => ?_
      subst ht
      exact .pure (.text _)

/-! ### Comparison -/

/-- Texts are compared as texts and everything else as numbers. -/
theorem isLessPrimitive? (hv : ρ.value v w) (hv' : ρ.value v' w') :
    Related ρ K (Machine.isLessPrimitive? v v') (Machine.isLessPrimitive? w w')
      fun _ x y => x = y := by
  have hnumbers : Related ρ K
      (do
        let x ← Eval.numberOf v
        let y ← Eval.numberOf v'
        return if x.isNaN || y.isNaN then none else some (decide (x < y)) : Eval (Option Bool))
      (do
        let x ← Eval.numberOf w
        let y ← Eval.numberOf w'
        return if x.isNaN || y.isNaN then none else some (decide (x < y))) fun _ x y => x = y := by
    refine (Related.numberOf hv).bind fun hle hx => ?_
    refine (Related.numberOf (hv'.mono hle)).bind fun _ hy => ?_
    subst hx hy
    exact .pure rfl
  cases hv with
  | text s =>
    cases hv' with
    | text t => exact .pure rfl
    | _ => exact hnumbers
  | _ => exact hnumbers

/-- The left side is converted first. -/
theorem isLess? (h : m.Agree φ m') (hv : ρ.value v w) (hv' : ρ.value v' w') :
    Related ρ K (m.isLess? v v') (m'.isLess? w w') fun _ x y => x = y :=
  (h.toPrimitive hv _).bind fun hle hp =>
    (h.toPrimitive (hv'.mono hle) _).bind fun hle' hq => isLessPrimitive? (hp.mono hle') hq

theorem isGreater? (h : m.Agree φ m') (hv : ρ.value v w) (hv' : ρ.value v' w') :
    Related ρ K (m.isGreater? v v') (m'.isGreater? w w') fun _ x y => x = y :=
  (h.toPrimitive hv _).bind fun hle hp =>
    (h.toPrimitive (hv'.mono hle) _).bind fun hle' hq => isLessPrimitive? hq (hp.mono hle')

/-- One side is converted at most: an object that is compared with what is none. -/
theorem isLoosely (h : m.Agree φ m') (hv : ρ.value v w) (hv' : ρ.value v' w') :
    Related ρ K (m.isLoosely v v') (m'.isLoosely w w') fun _ x y => x = y := by
  have hstrict : Related ρ K (pure (v.isStrictly v')) (pure (w.isStrictly w'))
      fun _ x y => x = y := .pure (hv.isStrictly hv')
  have hneither : Related ρ K (pure (v.isLoosely v')) (pure (w.isLoosely w'))
      fun _ x y => x = y := .pure (hv.isLoosely hv')
  -- The other side is what it was when the first one has been converted.
  have hleft : Related ρ K (do return (← m.toPrimitive v .number).isLoosely v')
      (do return (← m'.toPrimitive w .number).isLoosely w') fun _ x y => x = y :=
    (h.toPrimitive hv _).bind fun hle hp => .pure (hp.isLoosely (hv'.mono hle))
  have hright : Related ρ K (do return v.isLoosely (← m.toPrimitive v' .number))
      (do return w.isLoosely (← m'.toPrimitive w' .number)) fun _ x y => x = y :=
    (h.toPrimitive hv' _).bind fun hle hp => .pure ((hv.mono hle).isLoosely hp)
  cases hv with
  | object _ =>
    cases hv' with
    | object _ => exact hstrict
    | undefined | null => exact .pure rfl
    | _ => exact hleft
  | undefined | null =>
    cases hv' with
    | object _ => exact .pure rfl
    | _ => exact hneither
  | _ =>
    cases hv' with
    | object _ => exact hright
    | _ => exact hneither

end Machine.Agree

/-! ### References -/

namespace Related

variable {c : Context × Context} {r s : Reference}

/-- **A name stands for corresponding places, and is never looked for where nothing is.** -/
theorem resolve (name : String) :
    Related ρ (K.push c) (Eval.resolve name) (Eval.resolve name)
      fun σ r s => Reference.Rel σ r s := by
  refine environment.bind fun _ he => get fun a b hab => ?_
  obtain ⟨-, he⟩ := he
  have hholder := hab.environments.holder name he
  generalize a.environments.holder name _ = x, b.environments.holder name _ = y at hholder
  cases hholder with
  | environment h => exact pure (.variable h name)
  | nowhere => exact pure (.unresolvable name)

/-- A variable is read in its environment, a property on its object. -/
theorem readReference (h : Reference.Rel ρ r s) :
    Related ρ K (Eval.readReference r) (Eval.readReference s) fun σ v w => σ.value v w := by
  cases h with
  | «variable» he n => exact readVariable he n
  | unresolvable n => exact raise _ _
  | property hv k => exact getOf hv k

/-- Only objects have properties that may be deleted. -/
theorem deleteProperty (hv : ρ.value v w) (k : PropertyKey) :
    Related ρ K (Eval.deleteProperty v k) (Eval.deleteProperty w k) fun _ x y => x = y := by
  cases hv with
  | object hop =>
    exact changeObject (R := fun _ x y => x = y) hop (fun hxy => hxy.delete k)
      (Object.KeepsFunctions.delete k)
  | undefined | null => exact raise _ _
  | _ => exact pure rfl

theorem objectWord {a b : Agent} (hab : Agrees ρ K a b) (hv : ρ.value v w) :
    Eval.objectWord a v = Eval.objectWord b w := by
  have harray := hab.array? hv
  cases hv with
  | object _ =>
    unfold Eval.objectWord
    obtain ⟨h1, h2⟩ | ⟨_, _, h1, h2, -⟩ := Option.rel_cases harray
    · rw [h1, h2]
    · rw [h1, h2]
      rfl
  | _ => rfl

/-- A variable is deleted from its environment, a property from its object. -/
theorem deleteReference (h : Reference.Rel ρ r s) :
    Related ρ K (Eval.deleteReference r) (Eval.deleteReference s) fun _ x y => x = y := by
  cases h with
  | «variable» he n => exact deleteVariable he n
  | unresolvable n => exact pure rfl
  | property hv k =>
    refine (deleteProperty hv k).bind fun hle hxy => ?_
    subst hxy
    split
    · exact pure rfl
    · refine get fun a b hab => ?_
      rw [objectWord hab (hv.mono hle)]
      exact raise _ _

end Related

namespace Machine.Agree

/-- The new length is the same number on both sides, and other properties are written. -/
theorem setOn (h : m.Agree φ m') {o p : ObjectId} (hop : ρ.object o p) (k : PropertyKey)
    (hv : ρ.value v w) :
    Related ρ K (m.setOn o k v) (m'.setOn p k w) fun _ x y => x = y := by
  refine (Related.object hop).bind fun hle hxy => ?_
  rw [hxy.isArray]
  split
  · refine (h.toNumber (hv.mono hle)).bind fun hle' hx => ?_
    subst hx
    dsimp only
    split
    · exact .changeObject (R := fun _ x y => x = y) (hle'.object (hle.object hop))
        (fun hxy => hxy.setLength _) (Object.KeepsFunctions.setLength _)
    · exact .raise _ _
  · exact .changeObject (R := fun _ x y => x = y) (hle.object hop)
      (fun hxy => hxy.write k (hv.mono hle)) (Object.KeepsFunctions.write k _)

/-- An assignment is refused on both sides with the same message, or on neither. -/
theorem assignOn (h : m.Agree φ m') {o p : ObjectId} (hop : ρ.object o p) (k : PropertyKey)
    (hv : ρ.value v w) :
    Related ρ K (m.assignOn o k v) (m'.assignOn p k w) fun _ _ _ => True := by
  refine (h.setOn hop k hv).bind fun hle hxy => ?_
  subst hxy
  split
  · exact .pure trivial
  · refine (Related.object (hle.object hop)).bind fun _ hxy => ?_
    rw [hxy.hasOwn]
    split
    · exact .raise _ _
    · exact .raise _ _

/-- **Writing to corresponding places** leaves corresponding things in them. -/
theorem writeReference (h : m.Agree φ m') {r s : Reference} (hr : Reference.Rel ρ r s)
    (hv : ρ.value v w) :
    Related ρ K (m.writeReference r v) (m'.writeReference s w) fun _ _ _ => True := by
  cases hr with
  | «variable» he n => exact .writeVariable he hv (.inl rfl)
  | unresolvable n => exact .raise _ _
  | @property base base' hbase k =>
    -- The message quotes the value, and corresponding values are displayed alike.
    have hcreate : Related ρ K
        (do
          let a ← get
          Eval.raise .typeError ("Cannot create property '" ++ k.display ++ "' on "
            ++ a.typeName base ++ " '" ++ withoutQuotes (a.display base) ++ "'") : Eval Unit)
        (do
          let b ← get
          Eval.raise .typeError ("Cannot create property '" ++ k.display ++ "' on "
            ++ b.typeName base' ++ " '" ++ withoutQuotes (b.display base') ++ "'") : Eval Unit)
        fun _ _ _ => True := by
      refine .get fun a b hab => ?_
      rw [hab.typeName hbase, hab.display hbase]
      exact .raise _ _
    cases hbase with
    | object hop => exact h.assignOn hop k hv
    | undefined | null => exact .raise _ _
    | _ => exact hcreate

end Machine.Agree

end Scriptlet
