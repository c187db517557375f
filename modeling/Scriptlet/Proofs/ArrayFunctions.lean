import Scriptlet.Proofs.Builtins

/-!
# Related functions on arrays

Built-in functions on arrays are related for corresponding arguments, those that call back included,
and with them all built-in functions.

## Main results

* `Related.changeArray`, `Related.appendAll` — elements that are changed and put together.
* `Related.walkElements` — calls for the elements of an array.
* `Machine.Agree.arrayFunction`, `Machine.Agree.arrayMethod` — functions and methods on arrays.
* `Machine.Agree.make`, `Machine.Agree.callBuiltin` — **all built-in functions**.
-/

namespace Scriptlet

open Eval

variable {φ : RealmId → Filing} {m m' : Machine} {ρ : World} {K : Stack φ} {v w : Value}
  {vs ws : List Value}
  {o p : ObjectId}

/-! ### Elements -/

namespace Elements.Rel

variable {e f : Elements Value}

/-- Whether a value is among the elements is the same, as values are equal on both sides or on
neither. -/
theorem includesFrom (h : Elements.Rel ρ.value e f) (hv : ρ.value v w) (start : Nat) :
    e.includesFrom v start = f.includesFrom w start := by
  unfold Elements.includesFrom
  rw [hv.isUndefined, h.hasHolesFrom_eq]
  congr 1
  exact List.any_rel (fun _ _ hpq => hv.isSame hpq.2) (h.presentFrom start)

/-- So is where it is first. -/
theorem indexFrom? (h : Elements.Rel ρ.value e f) (hv : ρ.value v w) (start : Nat) :
    e.indexFrom? v start = f.indexFrom? w start := by
  unfold Elements.indexFrom?
  refine Option.map_rel (R := fun p q => p.1 = q.1) (fun _ _ hpq => hpq) ?_
  have hfound := List.find?_rel (p := fun p => v.isStrictly p.2) (q := fun q => w.isStrictly q.2)
    (fun _ _ hpq => hv.isStrictly hpq.2) (h.presentFrom start)
  obtain ⟨h1, h2⟩ | ⟨_, _, h1, h2, hpq⟩ := Option.rel_cases hfound
  · rw [h1, h2]
    exact .none
  · rw [h1, h2]
    exact .some hpq.1

theorem mono {σ : World} (hle : ρ ≤ σ) (h : Elements.Rel ρ.value e f) : Elements.Rel σ.value e f :=
  h.imp fun _ _ hvw => hvw.mono hle

end Elements.Rel

namespace Related

/-- The methods refuse what is no array on both sides, with the same message. -/
theorem thisArray (f : ArrayMethod) (hv : ρ.value v w) :
    Related ρ K (Eval.thisArray f v) (Eval.thisArray f w) fun σ o p => σ.object o p := by
  refine get fun a b hab => ?_
  obtain ⟨h1, h2⟩ | ⟨o, p, h1, h2, hop⟩ := Option.rel_cases (hab.array? hv)
  · rw [h1, h2]
    exact raise _ _
  · rw [h1, h2]
    exact pure hop

/-- The elements that a method reads are related. -/
theorem elementsOf (hop : ρ.object o p) :
    Related ρ K (Eval.elementsOf o) (Eval.elementsOf p) fun σ e f => Elements.Rel σ.value e f :=
  get fun _ _ hab => pure (hab.elements hop)

/-- An array is frozen on both sides or on neither. -/
theorem requireThawed (hop : ρ.object o p) :
    Related ρ K (Eval.requireThawed o) (Eval.requireThawed p) fun _ _ _ => True := by
  refine (elementsOf hop).bind fun _ he => ?_
  rw [he.isFrozen_eq]
  split
  · exact raise _ _
  · exact pure trivial

/-- Changing the elements of corresponding arrays alike, with corresponding outcomes. -/
theorem changeArray {α β : Type} {R : World → α → β → Prop} (hop : ρ.object o p)
    {f : Elements Value → α × Elements Value} {g : Elements Value → β × Elements Value}
    {missing : α} {missing' : β} (hmissing : ∀ {σ}, ρ ≤ σ → R σ missing missing')
    (hfg : ∀ {σ e e'}, ρ ≤ σ → Elements.Rel σ.value e e' →
      R σ (f e).1 (g e').1 ∧ Elements.Rel σ.value (f e).2 (g e').2) :
    Related ρ K (Eval.changeArray o f missing) (Eval.changeArray p g missing') R := by
  refine (requireThawed hop).bind fun hle _ => ?_
  exact changeObject (hle.object hop)
    (fun hxy => hxy.changeElements (fun _ _ he => hfg hle he) (hmissing hle))
    (Object.KeepsFunctions.changeElements f missing)

/-- There is room on both sides or on neither, as the lengths are the same. -/
theorem requireRoom (hop : ρ.object o p) (count : Nat) :
    Related ρ K (Eval.requireRoom o count) (Eval.requireRoom p count) fun _ _ _ => True := by
  refine (requireThawed hop).bind fun hle _ => (elementsOf (hle.object hop)).bind fun _ he => ?_
  rw [he.length_eq]
  split
  · exact raise _ _
  · exact pure trivial

/-- Changing the elements of corresponding arrays alike, if there is room for more. -/
theorem growArray (hop : ρ.object o p) (count : Nat) {f g : Elements Value → Elements Value}
    (hfg : ∀ {σ e e'}, ρ ≤ σ → Elements.Rel σ.value e e' → Elements.Rel σ.value (f e) (g e')) :
    Related ρ K (Eval.growArray o count f) (Eval.growArray p count g) fun _ _ _ => True := by
  refine (requireRoom hop count).bind fun hle _ => ?_
  exact changeArray (hle.object hop) (fun _ => trivial)
    fun hle' he => ⟨trivial, hfg (World.le_trans hle hle') he⟩

/-- An array is appended element by element, and everything else as one. -/
theorem appendValue {e f : Elements Value} (he : Elements.Rel ρ.value e f) (hv : ρ.value v w) :
    Related ρ K (Eval.appendValue e v) (Eval.appendValue f w)
      fun σ e f => Elements.Rel σ.value e f := by
  refine get fun a b hab => ?_
  obtain ⟨h1, h2⟩ | ⟨o, p, h1, h2, hop⟩ := Option.rel_cases (hab.array? hv)
  · rw [h1, h2]
    dsimp only
    rw [he.length_eq]
    split
    · exact raise _ _
    · exact pure (he.push hv)
  · rw [h1, h2]
    refine (elementsOf hop).bind fun hle he' => ?_
    rw [he.length_eq, he'.length_eq]
    split
    · exact raise _ _
    · exact pure ((he.mono hle).append he')

/-- Values are appended one after the other. -/
theorem appendAll {e f : Elements Value} (he : Elements.Rel ρ.value e f) (hvs : ρ.values vs ws) :
    Related ρ K (Eval.appendAll e vs) (Eval.appendAll f ws)
      fun σ e f => Elements.Rel σ.value e f := by
  induction vs generalizing ρ ws e f with
  | nil =>
    cases hvs
    exact pure he
  | cons v vs ih =>
    cases hvs with
    | cons hv hvs =>
      exact (appendValue he hv).bind fun hle he => ih he (World.values.mono hle hvs)

/-- **Walks over the elements of corresponding arrays are related when their visits are.** -/
theorem walkElements {τ τ' : Type} {I : World → τ → τ' → Prop} (hop : ρ.object o p)
    (hmono : ∀ {σ υ s t}, σ ≤ υ → I σ s t → I υ s t)
    {visit : τ → Nat → Value → Eval (Sum τ Value)} {visit' : τ' → Nat → Value → Eval (Sum τ' Value)}
    {finish : τ → Eval Value} {finish' : τ' → Eval Value}
    (hvisit : ∀ {σ s t v w} (i : Nat), ρ ≤ σ → I σ s t → σ.value v w →
      Related σ K (visit s i v) (visit' t i w) fun υ r r' => Sum.LiftRel (I υ) υ.value r r')
    (hfinish : ∀ {σ s t}, ρ ≤ σ → I σ s t →
      Related σ K (finish s) (finish' t) fun σ v w => σ.value v w)
    (start : Nat) {s : τ} {t : τ'} (hI : I ρ s t) :
    Related ρ K (Eval.walkElements o visit finish start s)
      (Eval.walkElements p visit' finish' start t) fun σ v w => σ.value v w := by
  refine (elementsOf hop).bind fun hle he => ?_
  dsimp only
  rw [he.length_eq]
  -- Both walks are at the same index in every round, and so are as many rounds.
  refine iterate (I := fun σ s t => s.1 = t.1 ∧ I σ s.2 t.2) (fun {σ s t} hle₁ hst => ?_) _
    ⟨rfl, hmono hle hI⟩
  obtain ⟨k, s⟩ := s
  obtain ⟨k', t⟩ := t
  obtain ⟨rfl, hI⟩ : k = k' ∧ I σ s t := hst
  have hle₁ := World.le_trans hle hle₁
  refine (elementsOf (hle₁.object hop)).bind fun hle₂ he => ?_
  have hle₃ := World.le_trans hle₁ hle₂
  have hI := hmono hle₂ hI
  obtain ⟨h1, h2⟩ | ⟨⟨i, v⟩, ⟨_, w⟩, h1, h2, rfl, hvw⟩ := Option.rel_cases (he.nextPresent? k)
  · rw [h1, h2]
    -- The elements are read again in every round, so this case may come before the length is
    -- reached.
    exact (hfinish hle₃ hI).bind fun _ hr => pure (.inr hr)
  · rw [h1, h2]
    dsimp only at hvw ⊢
    split
    · exact (hfinish hle₃ hI).bind fun _ hr => pure (.inr hr)
    · refine (hvisit i hle₃ hI hvw).bind fun _ hr => ?_
      cases hr with
      | inl hI => exact pure (.inl ⟨rfl, hI⟩)
      | inr hr => exact pure (.inr hr)

end Related

/-! ### Functions and methods -/

namespace Machine.Agree

theorem visitor (h : m.Agree φ m') {f g : ObjectId} (hf : ρ.callable f g) {this this' : Value}
    (hthis : ρ.value this this') (hop : ρ.object o p) (i : Nat) (hv : ρ.value v w) :
    Related ρ K (m.visitor f this o i v) (m'.visitor g this' p i w) fun σ v w => σ.value v w :=
  h.call hf hthis (.cons hv (.cons (.ofNat i) (.cons (.object hop) .nil)))

/-- A search looks at as many places on both sides, and stops at the same one. -/
theorem find? (h : m.Agree φ m') {f g : ObjectId} (hf : ρ.callable f g) {this this' : Value}
    (hthis : ρ.value this this') (hop : ρ.object o p) (length : Nat) :
    Related ρ K (m.find? f this o length) (m'.find? g this' p length)
      fun σ r s => Option.Rel σ.keyed r s := by
  refine .iterate (I := fun _ i j => i = j) (fun {σ i j} hle hI => ?_) _ rfl
  subst hI
  split
  · refine (Related.elementsOf (hle.object hop)).bind fun hle₁ he => ?_
    have hle₁ := World.le_trans hle hle₁
    have hv := World.value?.getD (he.get? i)
    refine (h.visitor (hf.mono hle₁) (hthis.mono hle₁) (hle₁.object hop) i hv).bind fun hle₂ hr => ?_
    rw [hr.isTrue]
    split
    · exact .pure (.inr (.some ⟨rfl, hv.mono hle₂⟩))
    · exact .pure (.inl rfl)
  · exact .pure (.inr .none)

/-- What is handed from round to round corresponds. -/
theorem reduceFrom (h : m.Agree φ m') {f g : ObjectId} (hf : ρ.callable f g) (hop : ρ.object o p)
    (start : Nat) (hv : ρ.value v w) :
    Related ρ K (m.reduceFrom f o start v) (m'.reduceFrom g p start w)
      fun σ v w => σ.value v w := by
  refine .walkElements (I := fun σ v w => σ.value v w) hop (fun hle hv => hv.mono hle)
    (fun i hle hacc hx => ?_) (fun _ hacc => .pure hacc) start hv
  exact (h.call (hf.mono hle) .undefined
    (.cons hacc (.cons hx (.cons (.ofNat i) (.cons (.object (hle.object hop)) .nil))))).bind
    fun _ hr => .pure (.inl hr)

/-- Without a first value, the first element that is there takes its place. -/
theorem reduce (h : m.Agree φ m') {f g : ObjectId} (hf : ρ.callable f g) (hop : ρ.object o p)
    {start start' : Option Value} (hs : ρ.value? start start') :
    Related ρ K (m.reduce f o start) (m'.reduce g p start') fun σ v w => σ.value v w := by
  cases hs with
  | some hv => exact h.reduceFrom hf hop 0 hv
  | none =>
    refine (Related.elementsOf hop).bind fun hle he => ?_
    obtain ⟨h1, h2⟩ | ⟨⟨i, v⟩, ⟨_, w⟩, h1, h2, rfl, hvw⟩ := Option.rel_cases (he.nextPresent? 0)
    · rw [h1, h2]
      exact .raise _ _
    · rw [h1, h2]
      exact h.reduceFrom (hf.mono hle) (hle.object hop) _ hvw

/-- Arrays are read place by place, texts point by point. -/
theorem sourceValues (h : m.Agree φ m') (hv : ρ.value v w) :
    Related ρ K (m.sourceValues v) (m'.sourceValues w) fun σ vs ws => σ.values vs ws := by
  refine .get fun a b hab => ?_
  have harray : (a.array? v).isSome = (b.array? w).isSome := by
    obtain ⟨h1, h2⟩ | ⟨_, _, h1, h2, -⟩ := Option.rel_cases (hab.array? hv)
    · rw [h1, h2]
    · rw [h1, h2]
      rfl
  rw [harray, hv.isText, hv.isNullish]
  split
  · exact .itemsOf hv
  · cases hv with
    | object hop =>
      refine (Related.getFrom hop "length").bind fun hle hx => ?_
      refine (h.toLength hx).bindEq fun hle₁ => ?_
      split
      · exact .raise _ _
      · refine .mapM (I := fun σ i j => i = j ∧ σ.object _ _) (fun hle h => ⟨h.1, hle.object h.2⟩)
          (fun hle h => h.mono hle) (fun _ hij => ?_)
          (List.forall₂_same.mpr fun _ _ => ⟨rfl, hle₁.object (hle.object hop)⟩)
        obtain ⟨rfl, hop⟩ := hij
        exact .getFrom hop _
    | _ => exact .pure .nil

/-- What has been mapped corresponds when the next value is mapped. -/
theorem mapValues (h : m.Agree φ m') {f g : ObjectId} (hf : ρ.callable f g) {this this' : Value}
    (hthis : ρ.value this this') (i : Nat) (hvs : ρ.values vs ws) :
    Related ρ K (m.mapValues f this i vs) (m'.mapValues g this' i ws)
      fun σ vs ws => σ.values vs ws := by
  induction vs generalizing ρ ws i with
  | nil =>
    cases hvs
    exact .pure .nil
  | cons v vs ih =>
    cases hvs with
    | cons hv hvs =>
      refine (h.call hf hthis (.cons hv (.cons (.ofNat i) .nil))).bind fun hle hr => ?_
      refine (ih (hf.mono hle) (hthis.mono hle) _ (World.values.mono hle hvs)).bind fun hle₁ hrs => ?_
      exact .pure (.cons (hr.mono hle₁) hrs)

/-- The functions of the library for arrays. -/
theorem arrayFunction (h : m.Agree φ m') (f : ArrayFunction) (hvs : ρ.values vs ws) :
    Related ρ K (m.arrayFunction f vs) (m'.arrayFunction f ws) fun σ v w => σ.value v w := by
  cases f with
  | isArray =>
    refine .get fun a b hab => ?_
    obtain ⟨h1, h2⟩ | ⟨_, _, h1, h2, -⟩ := Option.rel_cases (hab.array? (hvs.argument 0))
    · rw [h1, h2]
      exact .pure (.boolean _)
    · rw [h1, h2]
      exact .pure (.boolean _)
  | of => exact .arrayOf hvs
  | «from» =>
    unfold Machine.arrayFunction
    dsimp only
    rw [(hvs.argument 1).isUndefined]
    split
    · exact (h.sourceValues (hvs.argument 0)).bind fun _ hxs => .arrayOf hxs
    · refine (Related.callable (hvs.argument 1)).bind fun hle hf => ?_
      refine (h.sourceValues ((hvs.argument 0).mono hle)).bind fun hle₁ hxs => ?_
      have hle₂ := World.le_trans hle hle₁
      exact (h.mapValues (hf.mono hle₁) ((hvs.argument 2).mono hle₂) 0 hxs).bind
        fun _ hys => .arrayOf hys

/-- **Methods of arrays that call back are related.** -/
theorem arrayVisit (h : m.Agree φ m') (f : ArrayMethod) (hop : ρ.object o p) (hvs : ρ.values vs ws) :
    Related ρ K (m.arrayVisit f o vs) (m'.arrayVisit f p ws) fun σ v w => σ.value v w := by
  refine (Related.callable (hvs.argument 0)).bind fun {σ g g'} hle hf => ?_
  have hop := hle.object hop
  have hthis := (hvs.argument 1).mono hle
  -- Every method but `reduce` calls back in the same way.
  have hcall := fun {τ : World} {v w : Value} (i : Nat) (hle : σ ≤ τ) (hx : τ.value v w) =>
    h.visitor (K := K) (hf.mono hle) (hthis.mono hle) (hle.object hop) i hx
  have hforEach : Related σ K
      (Eval.walkElements o (fun _ i v => do
        let _ ← m.visitor g (argument vs 1) o i v
        return .inl ()) (fun _ => return .undefined) 0 ())
      (Eval.walkElements p (fun _ i v => do
        let _ ← m'.visitor g' (argument ws 1) p i v
        return .inl ()) (fun _ => return .undefined) 0 ()) fun σ v w => σ.value v w :=
    .walkElements (I := fun _ _ _ => True) hop (fun _ h => h)
      (fun i hle _ hx => (hcall i hle hx).bind fun _ _ => .pure (.inl trivial))
      (fun _ _ => .pure .undefined) 0 trivial
  cases f with
  | every =>
    refine .walkElements (I := fun _ _ _ => True) hop (fun _ h => h) (fun i hle _ hx => ?_)
      (fun _ _ => .pure (.boolean true)) 0 trivial
    refine (hcall i hle hx).bind fun _ hr => ?_
    rw [hr.isTrue]
    split
    · exact .pure (.inl trivial)
    · exact .pure (.inr (.boolean false))
  | some =>
    refine .walkElements (I := fun _ _ _ => True) hop (fun _ h => h) (fun i hle _ hx => ?_)
      (fun _ _ => .pure (.boolean false)) 0 trivial
    refine (hcall i hle hx).bind fun _ hr => ?_
    rw [hr.isTrue]
    split
    · exact .pure (.inr (.boolean true))
    · exact .pure (.inl trivial)
  | filter =>
    refine .walkElements (I := fun σ vs ws => σ.values vs ws) hop
      (fun hle hvs => World.values.mono hle hvs) (fun i hle hacc hx => ?_)
      (fun _ hacc => .arrayOf (List.rel_reverse hacc)) 0 .nil
    refine (hcall i hle hx).bind fun hle₁ hr => ?_
    rw [hr.isTrue]
    split
    · exact .pure (.inl (.cons (hx.mono hle₁) (World.values.mono hle₁ hacc)))
    -- What is kept so far corresponds as lists of values.
    · exact .pure (.inl (World.values.mono hle₁ hacc))
  | map =>
    refine (Related.elementsOf hop).bind fun hle₁ he => ?_
    dsimp only
    rw [he.length_eq]
    refine .walkElements (I := fun σ e f => Elements.Rel σ.value e f) (hle₁.object hop)
      (fun hle he => he.mono hle) (fun i hle₂ he hx => ?_)
      (fun _ he => (Related.allocateArray he).bind fun _ ho => .pure (.object ho)) 0 (.ofLength _)
    exact (hcall i (World.le_trans hle₁ hle₂) hx).bind fun hle₃ hr =>
      .pure (.inl ((he.mono hle₃).set i hr))
  | find =>
    refine (Related.elementsOf hop).bind fun hle₁ he => ?_
    rw [he.length_eq]
    -- What is mapped so far corresponds as elements.
    refine (h.find? (hf.mono hle₁) (hthis.mono hle₁) (hle₁.object hop) _).bind fun _ hr => ?_
    cases hr with
    | none => exact .pure .undefined
    | some hr => exact .pure hr.2
  | findIndex =>
    refine (Related.elementsOf hop).bind fun hle₁ he => ?_
    rw [he.length_eq]
    refine (h.find? (hf.mono hle₁) (hthis.mono hle₁) (hle₁.object hop) _).bind fun _ hr => ?_
    cases hr with
    | none => exact .pure (.number _)
    | @some x y hr =>
      obtain ⟨i, v⟩ := x
      obtain ⟨j, w⟩ := y
      obtain ⟨rfl, -⟩ : i = j ∧ _ := hr
      exact .pure (.ofNat i)
  | reduce =>
    refine h.reduce hf hop ?_
    rw [hvs.length_eq]
    split
    · exact .some hthis
    · exact .none
  | _ => exact hforEach

theorem searchStart (h : m.Agree φ m') (length : Nat) (hv : ρ.value v w) :
    Related ρ K (m.searchStart length v) (m'.searchStart length w) fun _ x y => x = y :=
  (h.toInteger hv).bindEq fun _ => .pure rfl

/-- **Methods of arrays are related.** -/
theorem arrayMethod (h : m.Agree φ m') (f : ArrayMethod) (hv : ρ.value v w)
    (hvs : ρ.values vs ws) :
    Related ρ K (m.arrayMethod f v vs) (m'.arrayMethod f w ws) fun σ v w => σ.value v w := by
  refine (Related.thisArray f hv).bind fun hle hop => ?_
  refine (Related.elementsOf hop).bind fun {σ e e'} hle₁ he => ?_
  have hop := hle₁.object hop
  have hle₂ := World.le_trans hle hle₁
  have hv := hv.mono hle₂
  have hvs := World.values.mono hle₂ hvs
  have hvisit := h.arrayVisit (K := K) f hop hvs
  dsimp only
  -- The methods that do not call back read the elements once more after their arguments are
  -- converted.
  rw [he.length_eq]
  cases f with
  | concat =>
    refine (Related.elementsOf hop).bind fun hle he => ?_
    refine (Related.appendAll he.thawed (World.values.mono hle hvs)).bind fun _ he => ?_
    exact (Related.allocateArray he).bind fun _ ho => .pure (.object ho)
  | includes =>
    dsimp only
    split
    · exact .pure (.boolean _)
    · refine (h.searchStart _ (hvs.argument 1)).bindEq fun hle => ?_
      refine (Related.elementsOf (hle.object hop)).bind fun hle₁ he => ?_
      rw [he.includesFrom ((hvs.argument 0).mono (World.le_trans hle hle₁))]
      exact .pure (.boolean _)
  | indexOf =>
    dsimp only
    split
    · exact .pure (.number _)
    · refine (h.searchStart _ (hvs.argument 1)).bindEq fun hle => ?_
      refine (Related.elementsOf (hle.object hop)).bind fun hle₁ he => ?_
      rw [he.indexFrom? ((hvs.argument 0).mono (World.le_trans hle hle₁))]
      split
      · exact .pure (.ofNat _)
      · exact .pure (.number _)
  | join =>
    refine (h.textOr (hvs.argument 0) _).bindEq fun hle => ?_
    exact (h.join (hle.object hop) _).bindEq fun _ => .pure (.text _)
  | toString => exact (h.join hop _).bindEq fun _ => .pure (.text _)
  | slice =>
    refine (h.searchStart _ (hvs.argument 0)).bindEq fun hle => ?_
    refine (h.indexOr ((hvs.argument 1).mono hle) _ _).bindEq fun hle₁ => ?_
    have hle₁ := World.le_trans hle hle₁
    refine (Related.elementsOf (hle₁.object hop)).bind fun _ he => ?_
    exact (Related.allocateArray (he.slice _ _)).bind fun _ ho => .pure (.object ho)
  | pop =>
    refine (Related.changeArray (R := fun σ v w => σ.value? v w) hop (fun _ => .none)
      (fun _ he => he.pop)).bind fun _ hr => .pure (World.value?.getD hr)
  | shift =>
    refine (Related.changeArray (R := fun σ v w => σ.value? v w) hop (fun _ => .none)
      (fun _ he => he.shift)).bind fun _ hr => .pure (World.value?.getD hr)
  | push =>
    dsimp only
    rw [hvs.length_eq]
    exact (Related.growArray hop _ fun hle he => he.pushAll (World.values.mono hle hvs)).bind
      fun _ _ => .pure (.ofNat _)
  | unshift =>
    dsimp only
    rw [hvs.length_eq]
    exact (Related.growArray hop _ fun hle he => he.unshift (World.values.mono hle hvs)).bind
      fun _ _ => .pure (.ofNat _)
  | reverse =>
    exact (Related.changeArray (R := fun _ _ _ => True) hop (fun _ => trivial)
      (fun _ he => ⟨trivial, he.reverse⟩)).bind fun hle _ => .pure (hv.mono hle)
  | _ => exact hvisit

/-! ### Constructors and all built-in functions -/

/-- A message is converted, unless it is missing. -/
theorem messageOf (h : m.Agree φ m') (hv : ρ.value v w) :
    Related ρ K (m.messageOf v) (m'.messageOf w) fun _ s t => s = t := by
  unfold Machine.messageOf
  rw [hv.isUndefined]
  split
  · exact .pure rfl
  · exact (h.toText hv).bindEq fun _ => .pure rfl

/-- A cause is looked up on an object that is there for it. -/
theorem causeOf (hv : ρ.value v w) :
    Related ρ K (Eval.causeOf v) (Eval.causeOf w) fun σ v w => σ.value? v w := by
  cases hv with
  | object hop => exact (Related.object hop).bind fun _ hxy => .pure (hxy.ownValue? _)
  | _ => exact .pure .none

theorem setCause (hop : ρ.object o p) {cause cause' : Option Value}
    (hc : ρ.value? cause cause') :
    Related ρ K (Eval.setCause o cause) (Eval.setCause p cause') fun _ _ _ => True := by
  cases hc with
  | none => exact .pure trivial
  | some hv =>
    refine .modifyObject hop (fun hxy => hxy.withProperties ?_) fun _ => rfl
    rw [Array.toList_push, Array.toList_push]
    exact List.rel_append hxy.properties (.cons (Object.Rel.hidden _ hv) .nil)

/-- An error has corresponding causes, and the same message. -/
theorem makeError (h : m.Agree φ m') (kind : ErrorKind) (hvs : ρ.values vs ws) :
    Related ρ K (m.makeError kind vs) (m'.makeError kind ws) fun σ v w => σ.value v w := by
  refine (h.messageOf (hvs.argument 0)).bindEq fun hle => ?_
  refine (causeOf ((hvs.argument 1).mono hle)).bind fun _ hc => ?_
  refine (Related.errorObject kind _).bind fun hle₁ ho => ?_
  exact (setCause ho (World.value?.mono hle₁ hc)).bind fun hle₂ _ => .pure (.object (hle₂.object ho))

/-- A single number is a length; all other arguments are elements. -/
theorem makeArray (hvs : ρ.values vs ws) :
    Related ρ K (Machine.makeArray vs) (Machine.makeArray ws) fun σ v w => σ.value v w := by
  have hof := Related.arrayOf (K := K) hvs
  have hlength : ∀ x : Float, Related ρ K
      (Machine.makeArray [.number x]) (Machine.makeArray [.number x]) fun σ v w => σ.value v w := by
    intro x
    unfold Machine.makeArray
    dsimp only
    split
    · exact (Related.allocateArray (.ofLength _)).bind fun _ ho => .pure (.object ho)
    · exact .raise _ _
  cases hvs with
  | nil => exact hof
  | cons hv hvs =>
    cases hvs with
    | nil =>
      cases hv with
      | number x => exact hlength x
      | _ => exact hof
    | cons _ _ =>
      cases hv <;> exact hof

/-- A constructor makes corresponding things. -/
theorem make (h : m.Agree φ m') (k : Constructor) (isNew : Bool) (hvs : ρ.values vs ws) :
    Related ρ K (m.make k isNew vs) (m'.make k isNew ws) fun σ v w => σ.value v w := by
  cases k with
  | object =>
    unfold Machine.make
    dsimp only
    rw [(hvs.argument 0).isNullish]
    split
    · exact Related.emptyObject.bind fun _ ho => .pure (.object ho)
    · exact .pure (hvs.argument 0)
  | array => exact makeArray hvs
  | string =>
    cases hvs with
    | nil => exact .pure (.text _)
    | cons hv _ =>
      -- Only a symbol is converted in another way by a call without `new`.
      have htext := (h.toText (K := K) hv).bindEq fun {σ t} _ =>
        Related.pure (ρ := σ) (R := fun σ v w => σ.value v w) (.text t)
      cases hv with
      | symbol s =>
        cases isNew with
        | true => exact htext
        | false => exact .pure (.ofString _)
      | _ => exact htext
  | number =>
    cases hvs with
    | nil => exact .pure (.number _)
    | cons hv _ => exact (h.toNumber hv).bindEq fun _ => .pure (.number _)
  | boolean =>
    unfold Machine.make
    dsimp only
    rw [(hvs.argument 0).isTrue]
    exact .pure (.boolean _)
  | error kind => exact h.makeError kind hvs

/-- **All built-in functions are related for corresponding arguments.** -/
theorem callBuiltin (h : m.Agree φ m') (b : Builtin) (hv : ρ.value v w) (hvs : ρ.values vs ws) :
    Related ρ K (m.callBuiltin b v vs) (m'.callBuiltin b w ws) fun σ v w => σ.value v w := by
  cases b with
  | constructor k => exact h.make k false hvs
  | object f => exact h.objectFunction f hvs
  | array f => exact h.arrayFunction f hvs
  | number f =>
    unfold Machine.callBuiltin
    dsimp only
    rw [f.holds_eq (hvs.argument 0)]
    exact .pure (.boolean _)
  | math f => exact h.mathFunction f hvs
  | global f => exact h.globalFunction f hvs
  | arrayMethod f => exact h.arrayMethod f hv hvs
  | textMethod f => exact h.textMethod f hv hvs
  | numberMethod f => exact h.numberMethod f hv hvs
  | booleanMethod f => exact .booleanMethod f hv
  | functionMethod f => exact h.functionMethod f hv hvs
  | objectMethod f => exact h.objectMethod f hv hvs
  | errorToString => exact h.errorToString hv

end Machine.Agree

end Scriptlet
