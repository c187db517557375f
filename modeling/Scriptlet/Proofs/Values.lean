import Scriptlet.Proofs.World
import Scriptlet.Value.Conversion

/-!
# Corresponding values

Whatever is asked of corresponding values has the same answer, equality included: as no object
corresponds to two, corresponding values are equal on one side when they are on the other.

## Main definitions

* `Value.isPlain` — whether a value is no object.

## Main results

* `Value.Rel.isStrictly`, `Value.Rel.isSame`, `Value.Rel.isLoosely` — **equality is the same on both
  sides**.
-/

namespace Scriptlet

namespace Value

/-- Whether a value is no object. -/
def isPlain : Value → Bool
  | object _ => false
  | _ => true

namespace Rel

variable {ρ : World} {v w v' w' : Value}

/-- A value that is no object corresponds to itself. -/
theorem refl (h : v.isPlain = true) : ρ.value v v := by
  cases v with
  | object o => cases h
  | undefined => exact .undefined
  | null => exact .null
  | boolean b => exact .boolean b
  | number x => exact .number x
  | text t => exact .text t
  | symbol s => exact .symbol s

theorem ofNat (n : Nat) : ρ.value (.ofNat n) (.ofNat n) := .number _

theorem ofString (s : String) : ρ.value (.ofString s) (.ofString s) := .text _

/-- What a value is tested for does not depend on which object it is. -/
theorem isUndefined (h : ρ.value v w) : v.isUndefined = w.isUndefined := by cases h <;> rfl

theorem isNullish (h : ρ.value v w) : v.isNullish = w.isNullish := by cases h <;> rfl

theorem isTrue (h : ρ.value v w) : v.isTrue = w.isTrue := by cases h <;> rfl

theorem isText (h : ρ.value v w) : v.isText = w.isText := by cases h <;> rfl

theorem toNumber? (h : ρ.value v w) : v.toNumber? = w.toNumber? := by cases h <;> rfl

theorem toText? (h : ρ.value v w) : v.toText? = w.toText? := by cases h <;> rfl

/-- So is whether loose equality compares a value as a number. -/
theorem isConvertible (h : ρ.value v w) : v.isConvertible = w.isConvertible := by
  cases h <;> rfl

/-- Objects are equal on one side when they are on the other. -/
theorem object_eq_iff {o o' p p' : ObjectId} (h : ρ.object o p) (h' : ρ.object o' p') :
    o = o' ↔ p = p' := by
  constructor
  · rintro rfl
    exact ρ.object_unique.2 h h'
  · rintro rfl
    exact ρ.object_unique.1 h h'

theorem isSameNonNumber (h : ρ.value v w) (h' : ρ.value v' w') :
    v.isSameNonNumber v' = w.isSameNonNumber w' := by
  cases h <;> cases h' <;> try rfl
  case object.object ho _ _ ho' =>
    unfold Value.isSameNonNumber
    rw [Bool.eq_iff_iff, beq_iff_eq, beq_iff_eq]
    exact object_eq_iff ho ho'

/-- Objects are equal on both sides or on neither, as they correspond one to one. -/
theorem isStrictly (h : ρ.value v w) (h' : ρ.value v' w') : v.isStrictly v' = w.isStrictly w' := by
  have hs := isSameNonNumber h h'
  cases h <;> cases h' <;> first | rfl | exact hs

theorem isSame (h : ρ.value v w) (h' : ρ.value v' w') : v.isSame v' = w.isSame w' := by
  have hs := isSameNonNumber h h'
  cases h <;> cases h' <;> first | rfl | exact hs

theorem isSameType (h : ρ.value v w) (h' : ρ.value v' w') :
    v.isSameType v' = w.isSameType w' := by
  cases h <;> cases h' <;> rfl

theorem isLoosely (h : ρ.value v w) (h' : ρ.value v' w') : v.isLoosely v' = w.isLoosely w' := by
  unfold Value.isLoosely
  rw [h.isSameType h', h.isStrictly h', h.isConvertible, h'.isConvertible, h.toNumber?,
    h'.toNumber?, h.isNullish, h'.isNullish]

end Rel

end Value

/-- Corresponding values, or others for the lack of them. -/
theorem World.value?.getD_rel {ρ : World} {v w : Option Value} (h : ρ.value? v w) {v' w' : Value}
    (h' : ρ.value v' w') : ρ.value (v.getD v') (w.getD w') := by
  cases h with
  | none => exact h'
  | some h => exact h

/-- Corresponding values, or undefined for the lack of them. -/
theorem World.value?.getD {ρ : World} {v w : Option Value} (h : ρ.value? v w) :
    ρ.value (v.getD .undefined) (w.getD .undefined) :=
  getD_rel h .undefined

/-- Optional values are missing on one side when they are on the other. -/
theorem World.value?.isNone_eq {ρ : World} {v w : Option Value} (h : ρ.value? v w) :
    v.isNone = w.isNone := by
  cases h <;> rfl

end Scriptlet
