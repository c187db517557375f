import Scriptlet.Proofs.Conversions

/-!
# Related bindings and assignments

Giving corresponding values to the names of a pattern, or to a target, is related on both sides.

## Main results

* `Machine.Agree.named`, `Machine.Agree.nameKey` — functions that get names, and computed keys.
* `Machine.Agree.bindPattern` — patterns that declare names.
* `Machine.Agree.referenceOf?`, `Machine.Agree.targetReference?` — places.
* `Machine.Agree.assignTarget` — targets.
-/

namespace Scriptlet

open Eval

variable {φ : RealmId → Filing} {m m' : Machine} {ρ : World} {c : Context × Context} {K : Stack φ}
  {S : List Scope}
  {v w : Value}

/-- What is inside wrappers is noted where they are. -/
theorem Expr.notes_inner (s : Surroundings) (e : Expr) : e.inner.notes s = e.notes s := by
  cases e with
  | wrapped span form content => exact Expr.notes_inner s content
  | _ => rfl

namespace Related

/-- A function without name gets one on both sides or on neither. -/
theorem nameFunction (hv : ρ.value v w) (name : String) :
    Related ρ K (Eval.nameFunction v name) (Eval.nameFunction w name) fun _ _ _ => True := by
  cases hv with
  | object hop =>
    exact modifyObject hop (fun hxy => hxy.withName name) (Object.KeepsFunctions.withName name)
  | _ => exact pure trivial

/-- There are parts to take on both sides, or the same error is thrown. -/
theorem requireParts (hv : ρ.value v w) :
    Related ρ K (Eval.requireParts v) (Eval.requireParts w) fun _ _ _ => True := by
  cases hv with
  | undefined | null => exact raise _ _
  | _ => exact pure trivial

end Related

namespace Machine.Agree

/-! ### Names of functions and of properties -/

/-- The value of an expression that is named, if it is a function without name. -/
theorem named (h : m.Agree φ m') {e : Expr} (he : ρ.Admits c S (Expr.notes · e)) (name : String) :
    Related ρ (K.push c) (m.named e name) (m'.named e name) fun σ v w => σ.value v w := by
  refine (h.expression he).bind fun hle hv => ?_
  split
  · exact (Related.nameFunction hv name).bind fun hle' _ => .pure (hv.mono hle')
  · exact .pure hv

theorem namedBy (h : m.Agree φ m') {e : Expr} (he : ρ.Admits c S (Expr.notes · e))
    (name : Option String) :
    Related ρ (K.push c) (m.namedBy e name) (m'.namedBy e name) fun σ v w => σ.value v w := by
  cases name with
  | none => exact h.expression he
  | some name => exact h.named he name

/-- Literal keys are the same, and computed ones are converted to the same keys. -/
theorem nameKey (h : m.Agree φ m') {n : PropertyName} (hn : ρ.Admits c S (nameNotes · n)) :
    Related ρ (K.push c) (m.nameKey n) (m'.nameKey n) fun _ k l => k = l := by
  cases n with
  | fixed t => exact .pure rfl
  | computed e => exact (h.expression (e := e) hn).bind fun _ hv => h.toKey hv
  | bigInt s =>
    have hs : ρ.Admits c S (Expr.notes · (.foreign s .bigInt)) :=
      ⟨hn.represents, by
        intro n hn hess
        rw [List.mem_singleton.mp hn] at hess
        cases hess⟩
    exact (h.expression hs).bind fun _ hv => h.toKey hv

/-! ### Patterns that declare names -/

/-- A name is given a value where it is declared, or written like any other. -/
theorem bindName (h : m.Agree φ m') {name : String} {e f : Option EnvironmentId}
    (hv : ρ.value v w) (he : ρ.Binds [name] e f) :
    Related ρ (K.push c) (m.bindName name v e) (m'.bindName name w f) fun _ _ _ => True := by
  cases he with
  | none =>
    exact (Related.resolve name).bind fun hle hr => h.writeReference hr (hv.mono hle)
  | some he => exact .initializeVariable he.1 (he.2 name (List.mem_singleton.mpr rfl)) hv

/-- The walk and the world go on from part to part. -/
theorem bindElements (h : m.Agree φ m') {e f : Option EnvironmentId} {ps : List (Option Pattern)}
    (hps : ρ.Admits c S (patternElementNotes · ps)) (he : ρ.Binds (elementNames ps) e f)
    {x y : Walk} (hxy : Walk.Rel ρ x y) :
    Related ρ (K.push c) (m.bindElements e ps x) (m'.bindElements f ps y)
      fun σ x y => Walk.Rel σ x y := by
  induction ps generalizing ρ x y with
  | nil => exact .pure hxy
  | cons p ps ih =>
    cases p with
    | none => exact (Related.nextOf hxy).bind fun hle hr => ih (hps.mono hle) (he.mono hle) hr.2
    | some p =>
      refine (Related.nextOf hxy).bind fun hle hr => ?_
      refine (h.run (.bind (.inr ⟨S, hps.left.mono hle⟩) (World.value?.getD hr.1)
        ((he.subset fun n => List.mem_append_left _).mono hle))).bind fun hle' _ => ?_
      exact ih (hps.right.mono (World.le_trans hle hle'))
        ((he.subset fun n => List.mem_append_right _).mono (World.le_trans hle hle'))
        (hr.2.mono hle')

/-- So do the keys that have been taken. -/
theorem bindProperties (h : m.Agree φ m') {e f : Option EnvironmentId} {ps : List PatternProperty}
    (hps : ρ.Admits c S (patternPropertyNotes · ps)) (he : ρ.Binds (propertyNames ps) e f)
    (hv : ρ.value v w) (keys : List PropertyKey) :
    Related ρ (K.push c) (m.bindProperties e v ps keys) (m'.bindProperties f w ps keys)
      fun _ ks ls => ks = ls := by
  induction ps generalizing ρ keys with
  | nil => exact .pure rfl
  | cons p ps ih =>
    obtain ⟨name, p⟩ := p
    have hp := hps.left
    refine (h.nameKey hp.left).bind fun hle hk => ?_
    subst hk
    refine (Related.getOf (hv.mono hle) _).bind fun hle₁ hx => ?_
    have hle₁ := World.le_trans hle hle₁
    refine (h.run (.bind (.inr ⟨S, hp.right.mono hle₁⟩) hx
      ((he.subset fun n => List.mem_append_left _).mono hle₁))).bind fun hle₂ _ => ?_
    have hle₂ := World.le_trans hle₁ hle₂
    exact ih (hps.right.mono hle₂) ((he.subset fun n => List.mem_append_right _).mono hle₂)
      (hv.mono hle₂) _

/-- **Giving corresponding values to the names of a pattern is related.** -/
theorem bindPattern (h : m.Agree φ m') {p : Pattern} {e f : Option EnvironmentId}
    (hp : (∃ n, p = .identifier n) ∨ ∃ S, ρ.Admits c S (Pattern.notes · p)) (hv : ρ.value v w)
    (he : ρ.Binds p.names e f) :
    Related ρ (K.push c) (m.bindPattern p v e) (m'.bindPattern p w f) fun _ _ _ => True := by
  cases p with
  | identifier name => exact h.bindName hv he
  | array elements rest =>
    -- Plain names need no analysis, and this is none.
    obtain ⟨n, hn⟩ | ⟨S, hp⟩ := hp
    · cases hn
    refine (Related.startWalk hv).bind fun hle hw => ?_
    refine (h.bindElements (hp.left.mono hle) ((he.subset fun n => List.mem_append_left _).mono hle)
      hw).bind fun hle₁ hw => ?_
    have hle₁ := World.le_trans hle hle₁
    cases rest with
    | none => exact .pure trivial
    | some p =>
      refine (Related.restOf hw).bind fun hle₂ hvs => ?_
      refine (Related.arrayOf hvs).bind fun hle₃ hx => ?_
      have hle₃ := World.le_trans hle₁ (World.le_trans hle₂ hle₃)
      exact h.run (.bind (.inr ⟨S, hp.right.mono hle₃⟩) hx
        ((he.subset fun n => List.mem_append_right _).mono hle₃))
  | object properties rest =>
    obtain ⟨n, hn⟩ | ⟨S, hp⟩ := hp
    · cases hn
    refine (Related.requireParts hv).bind fun hle _ => ?_
    refine (h.bindProperties (hp.left.mono hle)
      ((he.subset fun n => List.mem_append_left _).mono hle) (hv.mono hle) []).bind
      fun hle₁ hkeys => ?_
    subst hkeys
    have hle₁ := World.le_trans hle hle₁
    cases rest with
    | none => exact .pure trivial
    | some p =>
      refine Related.emptyObject.bind fun hle₂ ho => ?_
      -- What the pattern has taken by name is left out of the rest, on both sides by the same keys.
      have hle₂ := World.le_trans hle₁ hle₂
      refine (Related.copyProperties ho (hv.mono hle₂) _).bind fun hle₃ _ => ?_
      have hle₄ := World.le_trans hle₂ hle₃
      exact h.run (.bind (.inr ⟨S, hp.right.mono hle₄⟩) (.object (hle₃.object ho))
        ((he.subset fun n => List.mem_append_right _).mono hle₄))
  | withDefault target initializer =>
    obtain ⟨n, hn⟩ | ⟨S, hp⟩ := hp
    · cases hn
    unfold Machine.bindPattern
    dsimp only
    rw [hv.isUndefined]
    split
    · refine (h.namedBy hp.right _).bind fun hle hx => ?_
      exact h.run (.bind (.inr ⟨S, hp.left.mono hle⟩) hx (he.mono hle))
    · exact h.run (.bind (.inr ⟨S, hp.left⟩) hv he)

/-! ### Places -/

/-- **An expression stands for corresponding places, or for none on both sides.** -/
theorem referenceOf? (h : m.Agree φ m') {e : Expr} (he : ρ.Admits c S (Expr.notes · e)) :
    Related ρ (K.push c) (m.referenceOf? e) (m'.referenceOf? e)
      fun σ r s => σ.reference? r s := by
  -- Wrappers are left out by both machines, and by the analysis.
  have hinner : ρ.Admits c S (Expr.notes · e.inner) :=
    he.part fun r n hn => by rwa [Expr.notes_inner] at hn
  unfold Machine.referenceOf?
  generalize e.inner = i at hinner
  cases i with
  | identifier s name =>
    refine (Related.record _).bind fun hle _ => ?_
    exact (h.name (hinner.mono hle)).bind fun _ hr => .pure (.some hr)
  | member s object name isOptional =>
    refine (Related.record _).bind fun hle _ => ?_
    exact (h.expression (e := object) (hinner.mono hle)).bind fun _ hv =>
      .pure (.some (.property hv _))
  | index s object key isOptional =>
    refine (Related.record _).bind fun hle _ => ?_
    refine (h.expression (hinner.left.mono hle)).bind fun hle₁ hv => ?_
    have hle₁ := World.le_trans hle hle₁
    refine (h.expression (hinner.right.mono hle₁)).bind fun hle₂ hk => ?_
    refine (h.toKey hk).bind fun hle₃ hkey => ?_
    subst hkey
    exact .pure (.some (.property (hv.mono (World.le_trans hle₂ hle₃)) _))
  | _ => exact .pure .none

/-- The receiver of a property that is called is its object, on both sides. -/
theorem callee (h : m.Agree φ m') {e : Expr} (he : ρ.Admits c S (Expr.notes · e)) :
    Related ρ (K.push c) (m.callee e) (m'.callee e) fun σ p q => σ.values₂ p q := by
  refine (h.referenceOf? he).bind fun hle hr => ?_
  cases hr with
  | none =>
    exact (h.expression (he.mono hle)).bind fun _ hv => .pure ⟨hv, .undefined⟩
  | some hr =>
    exact (Related.readReference hr).bind fun hle' hv => .pure ⟨hv, (hr.mono hle').receiver⟩

/-- **A target stands for corresponding places, or is a pattern.** -/
theorem targetReference? (h : m.Agree φ m') {t : Target} (ht : ρ.Admits c S (Target.notes · t)) :
    Related ρ (K.push c) (m.targetReference? t) (m'.targetReference? t)
      fun σ r s => σ.reference? r s := by
  cases t with
  | identifier s name =>
    refine (Related.record _).bind fun hle _ => ?_
    exact (h.name (ht.mono hle)).bind fun _ hr => .pure (.some hr)
  | member s object name =>
    refine (Related.record _).bind fun hle _ => ?_
    exact (h.expression (e := object) (ht.mono hle)).bind fun _ hv =>
      .pure (.some (.property hv _))
  | index s object key =>
    refine (Related.record _).bind fun hle _ => ?_
    refine (h.expression (ht.left.mono hle)).bind fun hle₁ hv => ?_
    have hle₁ := World.le_trans hle hle₁
    refine (h.expression (ht.right.mono hle₁)).bind fun hle₂ hk => ?_
    refine (h.toKey hk).bind fun hle₃ hkey => ?_
    subst hkey
    exact .pure (.some (.property (hv.mono (World.le_trans hle₂ hle₃)) _))
  -- No target is private, so both sides refuse the place in the same words.
  | privateMember s field => exact .unsupported _ _
  | wrapped s content =>
    -- What is wrapped has to be a place; if it is none, it is evaluated before it is refused.
    refine (h.referenceOf? (e := content) ht).bind fun hle hr => ?_
    cases hr with
    | some hr => exact .pure (.some hr)
    | none => exact (h.expression (e := content) (ht.mono hle)).bind fun _ _ => .raise _ _
  | array elements rest => exact .pure .none
  | object properties rest => exact .pure .none

/-! ### Targets -/

/-- What is no place is assigned to as a pattern. -/
theorem assignAt (h : m.Agree φ m') {t : Target} (ht : ρ.Admits c S (Target.notes · t))
    {r s : Option Reference} (hr : ρ.reference? r s) (hv : ρ.value v w) :
    Related ρ (K.push c) (m.assignAt t r v) (m'.assignAt t s w) fun _ _ _ => True := by
  cases hr with
  | none => exact h.run (.assign ht hv)
  | some hr => exact h.writeReference hr hv

/-- A default is evaluated on both sides or on neither, as being undefined is the same. -/
theorem assignPart (h : m.Agree φ m') {e : TargetElement} (he : ρ.Admits c S (partNotes · e))
    {r s : Option Reference} (hr : ρ.reference? r s) (hv : ρ.value v w) :
    Related ρ (K.push c) (m.assignPart e r v) (m'.assignPart e s w) fun _ _ _ => True := by
  obtain ⟨t, initializer⟩ := e
  have ht := he.left
  cases initializer with
  | none => exact h.assignAt ht hr hv
  | some e =>
    unfold Machine.assignPart
    dsimp only
    rw [hv.isUndefined]
    split
    · exact (h.namedBy (e := e) he.right _).bind fun hle hx =>
        h.assignAt (ht.mono hle) (World.reference?.mono hle hr) hx
    · exact h.assignAt ht hr hv

/-- The place of a part is found before the next value is taken. -/
theorem assignElements (h : m.Agree φ m') {es : List (Option TargetElement)}
    (hes : ρ.Admits c S (targetElementNotes · es)) {x y : Walk} (hxy : Walk.Rel ρ x y) :
    Related ρ (K.push c) (m.assignElements es x) (m'.assignElements es y)
      fun σ x y => Walk.Rel σ x y := by
  induction es generalizing ρ x y with
  | nil => exact .pure hxy
  | cons e es ih =>
    cases e with
    | none => exact (Related.nextOf hxy).bind fun hle hr => ih (hes.mono hle) hr.2
    | some e =>
      have he : ρ.Admits c S (partNotes · e) := hes.left
      have ht : ρ.Admits c S (Target.notes · e.target) := by
        obtain ⟨t, initializer⟩ := e
        exact he.left
      refine (h.targetReference? ht).bind fun hle hr => ?_
      refine (Related.nextOf (hxy.mono hle)).bind fun hle₁ hx => ?_
      have hle₁ := World.le_trans hle hle₁
      refine (h.assignPart (he.mono hle₁) (World.reference?.mono ‹_› hr)
        (World.value?.getD hx.1)).bind fun hle₂ _ => ?_
      exact ih (hes.right.mono (World.le_trans hle₁ hle₂)) (hx.2.mono hle₂)

/-- So it is for properties, after the key. -/
theorem assignProperties (h : m.Agree φ m') {ps : List TargetProperty}
    (hps : ρ.Admits c S (targetPropertyNotes · ps)) (hv : ρ.value v w) (keys : List PropertyKey) :
    Related ρ (K.push c) (m.assignProperties v ps keys) (m'.assignProperties w ps keys)
      fun _ ks ls => ks = ls := by
  induction ps generalizing ρ keys with
  | nil => exact .pure rfl
  | cons p ps ih =>
    cases p with
    | shorthand s name initializer =>
      have hp := hps.left
      refine (h.name hp.head).bind fun hle hr => ?_
      refine (Related.getOf (hv.mono hle) _).bind fun hle₁ hx => ?_
      have hr := hr.mono hle₁
      have hle₁ := World.le_trans hle hle₁
      -- The names that have been taken grow by one, and the rest goes on with them.
      have hrest : ∀ {σ}, ρ ≤ σ → Related σ (K.push c)
          (m.assignProperties v ps (name :: keys)) (m'.assignProperties w ps (name :: keys))
          fun _ ks ls => ks = ls :=
        fun hle => ih (hps.right.mono hle) (hv.mono hle) _
      cases initializer with
      | none =>
        exact (h.writeReference hr hx).bind fun hle₂ _ => hrest (World.le_trans hle₁ hle₂)
      | some e =>
        dsimp only
        rw [hx.isUndefined]
        split
        · refine (h.named (e := e) (hp.tail.mono hle₁) name).bind fun hle₂ hy => ?_
          exact (h.writeReference (hr.mono hle₂) hy).bind fun hle₃ _ =>
            hrest (World.le_trans hle₁ (World.le_trans hle₂ hle₃))
        · exact (h.writeReference hr hx).bind fun hle₂ _ => hrest (World.le_trans hle₁ hle₂)
    | named name e =>
      have hp := hps.left
      have he : ρ.Admits c S (partNotes · e) := hp.right
      have ht : ρ.Admits c S (Target.notes · e.target) := by
        obtain ⟨t, initializer⟩ := e
        exact he.left
      -- The key comes first, then the place, and only then is the value read.
      refine (h.nameKey hp.left).bind fun hle hk => ?_
      subst hk
      refine (h.targetReference? (ht.mono hle)).bind fun hle₁ hr => ?_
      have hle₁ := World.le_trans hle hle₁
      refine (Related.getOf (hv.mono hle₁) _).bind fun hle₂ hx => ?_
      have hle₃ := World.le_trans hle₁ hle₂
      refine (h.assignPart (he.mono hle₃) (World.reference?.mono hle₂ hr) hx).bind fun hle₄ _ => ?_
      have hle₅ := World.le_trans hle₃ hle₄
      exact ih (hps.right.mono hle₅) (hv.mono hle₅) _

/-- A target that is one place is written. -/
theorem assignPlace (h : m.Agree φ m') {t : Target} (ht : ρ.Admits c S (Target.notes · t))
    (hv : ρ.value v w) :
    Related ρ (K.push c)
      (do
        match ← m.targetReference? t with
        | some r => m.writeReference r v
        | none => return)
      (do
        match ← m'.targetReference? t with
        | some r => m'.writeReference r w
        | none => return) fun _ _ _ => True := by
  refine (h.targetReference? ht).bind fun hle hr => ?_
  cases hr with
  | none => exact .pure trivial
  | some hr => exact h.writeReference hr (hv.mono hle)

/-- **Assigning corresponding values to a target is related.** -/
theorem assignTarget (h : m.Agree φ m') {t : Target} (ht : ρ.Admits c S (Target.notes · t))
    (hv : ρ.value v w) :
    Related ρ (K.push c) (m.assignTarget t v) (m'.assignTarget t w) fun _ _ _ => True := by
  cases t with
  | array elements rest =>
    refine (Related.startWalk hv).bind fun hle hw => ?_
    refine (h.assignElements (ht.left.mono hle) hw).bind fun hle₁ hw => ?_
    have hle₁ := World.le_trans hle hle₁
    cases rest with
    | none => exact .pure trivial
    | some t =>
      have ht' := ht.right
      -- The place is found before the values that are left are read.
      refine (h.targetReference? (t := t) (ht'.mono hle₁)).bind fun hle₂ hr => ?_
      refine (Related.restOf (hw.mono hle₂)).bind fun hle₃ hvs => ?_
      refine (Related.arrayOf hvs).bind fun hle₄ hx => ?_
      have hle₅ := World.le_trans hle₃ hle₄
      exact h.assignAt (t := t) (ht'.mono (World.le_trans hle₁ (World.le_trans hle₂ hle₅)))
        (World.reference?.mono hle₅ hr) hx
  | object properties rest =>
    refine (Related.requireParts hv).bind fun hle _ => ?_
    refine (h.assignProperties (ht.left.mono hle) (hv.mono hle) []).bind fun hle₁ hkeys => ?_
    subst hkeys
    have hle₁ := World.le_trans hle hle₁
    cases rest with
    | none => exact .pure trivial
    | some t =>
      have ht' := ht.right
      refine (h.targetReference? (t := t) (ht'.mono hle₁)).bind fun hle₂ hr => ?_
      have hle₂ := World.le_trans hle₁ hle₂
      refine Related.emptyObject.bind fun hle₃ ho => ?_
      have hle₄ := World.le_trans hle₂ hle₃
      refine (Related.copyProperties ho (hv.mono hle₄) _).bind fun hle₅ _ => ?_
      exact h.assignAt (t := t) (ht'.mono (World.le_trans hle₄ hle₅))
        (World.reference?.mono (World.le_trans hle₃ hle₅) hr) (.object (hle₅.object ho))
  | _ => exact h.assignPlace ht hv

end Machine.Agree

end Scriptlet
