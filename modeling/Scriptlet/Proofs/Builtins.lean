import Scriptlet.Builtin.Constructors
import Scriptlet.Proofs.Bindings

/-!
# Related built-in functions

Built-in functions on numbers, texts and objects are related for corresponding arguments.

## Main results

* `Machine.Agree.mathFunction`, `Machine.Agree.globalFunction`, `Machine.Agree.numberMethod` —
  numbers.
* `Machine.Agree.textMethod` — texts.
* `Machine.Agree.objectFunction`, `Machine.Agree.objectMethod` — objects.
* `Machine.Agree.functionMethod` — functions.
-/

namespace Scriptlet

open Eval

variable {φ : RealmId → Filing} {m m' : Machine} {ρ : World} {K : Stack φ} {v w : Value}
  {vs ws : List Value}

/-! ### Arguments -/

/-- Missing arguments are undefined on both sides. -/
theorem World.values.argument (h : ρ.values vs ws) (i : Nat) :
    ρ.value (argument vs i) (argument ws i) := by
  unfold Scriptlet.argument
  rw [List.getD_eq_getElem?_getD, List.getD_eq_getElem?_getD]
  exact World.value?.getD (List.getElem?_rel h i)

theorem World.values.tail (h : ρ.values vs ws) : ρ.values vs.tail ws.tail := by
  cases h with
  | nil => exact .nil
  | cons _ h => exact h

/-- Texts on their own as values. -/
theorem World.values.texts (ts : List Text) : ρ.values (ts.map .text) (ts.map .text) :=
  List.map_same (fun t => .text t) ts

/-- Throwing the error for a value that stands for the lack of one. -/
theorem Related.notAnObject {α β : Type} {R : World → α → β → Prop} :
    Related ρ K (Eval.notAnObject : Eval α) (Eval.notAnObject : Eval β) R :=
  .raise _ _

namespace Machine.Agree

/-- An argument that may be missing, as an integer. -/
theorem integerOr (h : m.Agree φ m') (hv : ρ.value v w) (missing : Float) :
    Related ρ K (m.integerOr v missing) (m'.integerOr w missing) fun _ x y => x = y := by
  unfold Machine.integerOr
  rw [hv.isUndefined]
  split
  · exact .pure rfl
  · exact h.toInteger hv

/-- An argument that may be missing, as an index. -/
theorem indexOr (h : m.Agree φ m') (hv : ρ.value v w) (convert : Float → Nat) (missing : Nat) :
    Related ρ K (m.indexOr v convert missing) (m'.indexOr w convert missing)
      fun _ x y => x = y := by
  unfold Machine.indexOr
  rw [hv.isUndefined]
  split
  · exact .pure rfl
  · exact (h.toInteger hv).bindEq fun _ => .pure rfl

/-- An argument that may be missing, as a text. -/
theorem textOr (h : m.Agree φ m') (hv : ρ.value v w) (missing : Text) :
    Related ρ K (m.textOr v missing) (m'.textOr w missing) fun _ s t => s = t := by
  unfold Machine.textOr
  rw [hv.isUndefined]
  split
  · exact .pure rfl
  · exact h.toText hv

/-! ### Numbers -/

/-- All arguments are converted before anything is computed with them. -/
theorem numbers (h : m.Agree φ m') (hvs : ρ.values vs ws) :
    Related ρ K (m.numbers vs) (m'.numbers ws) fun _ xs ys => xs = ys := by
  induction vs generalizing ρ ws with
  | nil =>
    cases hvs
    exact .pure rfl
  | cons v vs ih =>
    cases hvs with
    | cons hv hvs =>
      refine (h.toNumber hv).bindEq fun hle => ?_
      exact (ih (World.values.mono hle hvs)).bindEq fun _ => .pure rfl

theorem onNumber (h : m.Agree φ m') (f : Float → Float) (hvs : ρ.values vs ws) :
    Related ρ K (m.onNumber f vs) (m'.onNumber f ws) fun σ v w => σ.value v w :=
  (h.toNumber (hvs.argument 0)).bindEq fun _ => .pure (.number _)

/-- Functions on numbers give the same numbers, once their arguments are converted. -/
theorem mathFunction (h : m.Agree φ m') (f : MathFunction) (hvs : ρ.values vs ws) :
    Related ρ K (m.mathFunction f vs) (m'.mathFunction f ws) fun σ v w => σ.value v w := by
  cases f with
  | max | min => exact (h.numbers hvs).bindEq fun _ => .pure (.number _)
  | pow =>
    refine (h.toNumber (hvs.argument 0)).bindEq fun hle => ?_
    exact (h.toNumber ((hvs.argument 1).mono hle)).bindEq fun _ => .pure (.number _)
  | _ => exact h.onNumber _ hvs

/-- Functions that read numbers or test them. -/
theorem globalFunction (h : m.Agree φ m') (f : GlobalFunction) (hvs : ρ.values vs ws) :
    Related ρ K (m.globalFunction f vs) (m'.globalFunction f ws) fun σ v w => σ.value v w := by
  cases f with
  | isFinite | isNaN => exact (h.toNumber (hvs.argument 0)).bindEq fun _ => .pure (.boolean _)
  | parseFloat => exact (h.toText (hvs.argument 0)).bindEq fun _ => .pure (.number _)
  | parseInt =>
    refine (h.toText (hvs.argument 0)).bindEq fun hle => ?_
    exact (h.toNumber ((hvs.argument 1).mono hle)).bindEq fun _ => .pure (.number _)

theorem fixedText (h : m.Agree φ m') (x : Float) (hv : ρ.value v w) :
    Related ρ K (m.fixedText x v) (m'.fixedText x w) fun σ v w => σ.value v w := by
  refine (h.toInteger hv).bindEq fun _ => ?_
  split
  · exact .raise _ _
  · exact .pure (.ofString _)

/-- The text of a number in a radix is the same, or both computations throw. -/
theorem radixText (h : m.Agree φ m') (x : Float) (hv : ρ.value v w) :
    Related ρ K (m.radixText x v) (m'.radixText x w) fun σ v w => σ.value v w := by
  refine (h.integerOr hv 10).bindEq fun _ => ?_
  split
  · exact .raise _ _
  split
  · exact .pure (.ofString _)
  · exact .pure (.ofString _)

/-- A number corresponds to itself only, so its methods do. -/
theorem numberMethod (h : m.Agree φ m') (f : NumberMethod) (hv : ρ.value v w)
    (hvs : ρ.values vs ws) :
    Related ρ K (m.numberMethod f v vs) (m'.numberMethod f w ws) fun σ v w => σ.value v w := by
  cases hv with
  | number x =>
    cases f with
    | toFixed => exact h.fixedText x (hvs.argument 0)
    | toString => exact h.radixText x (hvs.argument 0)
    | valueOf => exact .pure (.number x)
  | _ => exact .raise _ _

end Machine.Agree

theorem Related.booleanMethod (f : BooleanMethod) (hv : ρ.value v w) :
    Related ρ K (Eval.booleanMethod f v) (Eval.booleanMethod f w) fun σ v w => σ.value v w := by
  cases hv with
  | boolean b =>
    cases f with
    | toString => exact pure (.ofString _)
    | valueOf => exact pure (.boolean b)
  | _ => exact raise _ _

/-- What is a number is the same on both sides. -/
theorem NumberFunction.holds_eq (f : NumberFunction) (hv : ρ.value v w) : f.holds v = f.holds w := by
  cases hv <;> rfl

/-! ### Texts -/

namespace Machine.Agree

/-- The length decides first, so that the text is not converted if there is no room for it. -/
theorem padding (h : m.Agree φ m') (t : Text) (hvs : ρ.values vs ws) :
    Related ρ K (m.padding t vs) (m'.padding t ws) fun _ s t => s = t := by
  refine (h.toLength (hvs.argument 0)).bindEq fun hle => ?_
  split
  · exact .pure rfl
  · refine (h.textOr ((hvs.argument 1).mono hle) _).bindEq fun _ => ?_
    split
    · exact .pure rfl
    split
    · exact .tooLong
    · exact .pure rfl

theorem repeated (h : m.Agree φ m') (t : Text) (hv : ρ.value v w) :
    Related ρ K (m.repeated t v) (m'.repeated t w) fun _ s t => s = t := by
  refine (h.toInteger hv).bindEq fun _ => ?_
  split
  · exact .raise _ _
  split
  · exact .raise _ _
  split
  · exact .tooLong
  · exact .pure rfl

/-- A limit that is missing is the largest one. -/
theorem limitOf (h : m.Agree φ m') (hv : ρ.value v w) :
    Related ρ K (m.limitOf v) (m'.limitOf w) fun _ x y => x = y := by
  unfold Machine.limitOf
  rw [hv.isUndefined]
  split
  · exact .pure rfl
  · exact (h.toNumber hv).bindEq fun _ => .pure rfl

/-- A separator that is missing is not converted. -/
theorem pieces (h : m.Agree φ m') (t : Text) (hvs : ρ.values vs ws) :
    Related ρ K (m.pieces t vs) (m'.pieces t ws) fun _ ss ts => ss = ts := by
  refine (h.limitOf (hvs.argument 1)).bindEq fun hle => ?_
  rw [(hvs.argument 0).isUndefined]
  split
  · exact .pure rfl
  · exact (h.toText ((hvs.argument 0).mono hle)).bindEq fun _ => .pure rfl

theorem charAt (h : m.Agree φ m') (t : Text) (hv : ρ.value v w) :
    Related ρ K (m.charAt t v) (m'.charAt t w) fun _ s t => s = t := by
  refine (h.toInteger hv).bindEq fun _ => ?_
  split
  · exact .pure rfl
  · exact .pure rfl

/-- The text that is searched for and the place where the search begins. -/
theorem search (h : m.Agree φ m') (t : Text) (hvs : ρ.values vs ws) :
    Related ρ K (m.search t vs) (m'.search t ws) fun _ x y => x = y := by
  refine (h.toText (hvs.argument 0)).bindEq fun hle => ?_
  exact (h.toInteger ((hvs.argument 1).mono hle)).bindEq fun _ => .pure rfl

/-- Texts correspond to themselves only, so what is done with one depends on its arguments. -/
theorem textMethodOn (h : m.Agree φ m') (f : TextMethod) (t : Text) (hvs : ρ.values vs ws) :
    Related ρ K (m.textMethodOn f t vs) (m'.textMethodOn f t ws) fun σ v w => σ.value v w := by
  cases f with
  | charAt => exact (h.charAt t (hvs.argument 0)).bindEq fun _ => .pure (.text _)
  | endsWith =>
    refine (h.toText (hvs.argument 0)).bindEq fun hle => ?_
    exact (h.indexOr ((hvs.argument 1).mono hle) _ _).bindEq fun _ => .pure (.boolean _)
  | includes | startsWith => exact (h.search t hvs).bindEq fun _ => .pure (.boolean _)
  | indexOf =>
    refine (h.search t hvs).bindEq fun _ => ?_
    split
    split
    · exact .pure (.ofNat _)
    · exact .pure (.number _)
  | padEnd | padStart => exact (h.padding t hvs).bindEq fun _ => .pure (.text _)
  | «repeat» => exact (h.repeated t (hvs.argument 0)).bindEq fun _ => .pure (.text _)
  | slice | substring =>
    refine (h.toInteger (hvs.argument 0)).bindEq fun hle => ?_
    exact (h.indexOr ((hvs.argument 1).mono hle) _ _).bindEq fun _ => .pure (.text _)
  | split => exact (h.pieces t hvs).bindEq fun _ => .arrayOf (World.values.texts _)
  | _ => exact .pure (.text _)

/-- Two methods refuse what is no text; the others convert it. -/
theorem textMethod (h : m.Agree φ m') (f : TextMethod) (hv : ρ.value v w) (hvs : ρ.values vs ws) :
    Related ρ K (m.textMethod f v vs) (m'.textMethod f w ws) fun σ v w => σ.value v w := by
  have hrequire : Related ρ K (requireText f v) (requireText f w) fun σ v w => σ.value v w := by
    unfold Eval.requireText
    rw [hv.isText]
    split
    · exact .pure hv
    · exact .raise _ _
  have hthis : Related ρ K (m.thisText f v) (m'.thisText f w) fun _ s t => s = t := by
    unfold Machine.thisText
    rw [hv.isNullish]
    split
    · exact .raise _ _
    · exact h.toText hv
  have hon := hthis.bindEq fun {σ t} hle => h.textMethodOn f t (World.values.mono hle hvs)
  cases f with
  | toString | valueOf => exact hrequire
  | _ => exact hon

end Machine.Agree

/-! ### Objects -/

namespace Related

/-- Corresponding objects list the same keys with corresponding values. -/
theorem listedOf (hv : ρ.value v w) :
    Related ρ K (Eval.listedOf v) (Eval.listedOf w) fun σ l l' => List.Forall₂ σ.keyed l l' := by
  cases hv with
  | undefined | null => exact notAnObject
  | object hop => exact get fun _ _ hab => pure (hab.listed hop)
  | text t => exact pure (List.map_same (fun _ => ⟨rfl, .text _⟩) _)
  | _ => exact pure .nil

theorem isFrozen (hv : ρ.value v w) :
    Related ρ K (Eval.isFrozen v) (Eval.isFrozen w) fun _ x y => x = y := by
  cases hv with
  | object hop => exact (object hop).bind fun _ hxy => pure hxy.isFrozen
  | _ => exact pure rfl

/-- Corresponding objects are frozen alike, and stay functions if they are. -/
theorem freeze (hv : ρ.value v w) :
    Related ρ K (Eval.freeze v) (Eval.freeze w) fun _ _ _ => True := by
  cases hv with
  | object hop => exact modifyObject hop (fun hxy => hxy.freeze) Object.KeepsFunctions.freeze
  | _ => exact pure trivial

/-- Corresponding objects have the same keys. -/
theorem hasOwn (hv : ρ.value v w) (k : PropertyKey) :
    Related ρ K (Eval.hasOwn v k) (Eval.hasOwn w k) fun _ x y => x = y := by
  cases hv with
  | undefined | null => exact notAnObject
  | object hop => exact (object hop).bind fun _ hxy => pure (hxy.hasOwn k)
  | _ => exact pure rfl

/-- Corresponding objects are of the same kind. -/
theorem kindWord {a b : Agent} (hab : Agrees ρ K a b) (hv : ρ.value v w) :
    Eval.kindWord a v = Eval.kindWord b w := by
  cases hv with
  | object hop =>
    have hk := (hab.object_rel hop).kind
    simp only [Eval.kindWord]
    generalize (a.object _).kind = k, (b.object _).kind = l at hk
    cases hk <;> rfl
  | _ => rfl

/-- Computations for corresponding things, one after the other. -/
theorem mapM {α β γ δ : Type} {I : World → α → β → Prop} {R : World → γ → δ → Prop}
    {f : α → Eval γ} {g : β → Eval δ} {l : List α} {l' : List β}
    (hI : ∀ {σ τ a b}, σ ≤ τ → I σ a b → I τ a b) (hR : ∀ {σ τ x y}, σ ≤ τ → R σ x y → R τ x y)
    (hfg : ∀ {σ a b}, ρ ≤ σ → I σ a b → Related σ K (f a) (g b) R)
    (hl : List.Forall₂ (I ρ) l l') :
    Related ρ K (l.mapM f) (l'.mapM g) fun σ xs ys => List.Forall₂ (R σ) xs ys := by
  induction l generalizing ρ l' with
  | nil =>
    cases hl
    rw [List.mapM_nil, List.mapM_nil]
    exact pure .nil
  | cons a l ih =>
    cases hl with
    | cons hab hl =>
      rw [List.mapM_cons, List.mapM_cons]
      refine (hfg (World.le_refl ρ) hab).bind fun hle hxy => ?_
      refine (ih (fun hle' => hfg (World.le_trans hle hle'))
        (hl.imp fun _ _ => hI hle)).bind fun hle' hxys => ?_
      exact pure (.cons (hR hle' hxy) hxys)

end Related

namespace Machine.Agree

variable {o p : ObjectId}

/-- Each key is looked up on the source when its turn comes, as assigning may have called. -/
theorem assignKeys (h : m.Agree φ m') {q r : ObjectId} (hop : ρ.object o p) (hqr : ρ.object q r)
    (ks : List PropertyKey) :
    Related ρ K (m.assignKeys o q ks) (m'.assignKeys p r ks) fun _ _ _ => True := by
  induction ks generalizing ρ with
  | nil => exact .pure trivial
  | cons k ks ih =>
    refine (Related.object hqr).bind fun hle hxy => ?_
    have hop := hle.object hop
    have hqr := hle.object hqr
    obtain ⟨h1, h2⟩ | ⟨x, y, h1, h2, hxy⟩ := Option.rel_cases (hxy.ownProperty? k)
    · rw [h1, h2]
      exact ih hop hqr
    · rw [h1, h2]
      dsimp only
      rw [hxy.isEnumerable]
      split
      · exact (h.assignOn hop k hxy.value).bind fun hle' _ => ih (hle'.object hop) (hle'.object hqr)
      · exact ih hop hqr

/-- Entries that have been read are assigned one after the other. -/
theorem assignEntries (h : m.Agree φ m') (hop : ρ.object o p) {l l' : List (PropertyKey × Value)}
    (hl : List.Forall₂ ρ.keyed l l') :
    Related ρ K (m.assignEntries o l) (m'.assignEntries p l') fun _ _ _ => True := by
  induction l generalizing ρ l' with
  | nil =>
    cases hl
    exact .pure trivial
  | cons x l ih =>
    obtain ⟨k, v⟩ := x
    cases hl with
    | @cons _ y _ l' hxy hl =>
      obtain ⟨k', w⟩ := y
      obtain ⟨rfl, hv⟩ : k = k' ∧ ρ.value v w := hxy
      exact (h.assignOn hop k hv).bind fun hle _ =>
        ih (hle.object hop) (World.keyed.mono hle hl)

/-- Objects are assigned from key by key, and other values by the entries they have. -/
theorem assignSources (h : m.Agree φ m') (hop : ρ.object o p) (hvs : ρ.values vs ws) :
    Related ρ K (m.assignSources o vs) (m'.assignSources p ws) fun _ _ _ => True := by
  induction vs generalizing ρ ws with
  | nil =>
    cases hvs
    exact .pure trivial
  | cons v vs ih =>
    cases hvs with
    | @cons _ w _ ws hv hvs =>
      have hrest : ∀ {σ}, ρ ≤ σ → Related σ K (m.assignSources o vs) (m'.assignSources p ws)
          fun _ _ _ => True :=
        fun hle => ih (hle.object hop) (World.values.mono hle hvs)
      -- What is no object is copied at once, as nothing can be called in between.
      have hcopied : Related ρ K
          (do
            m.assignEntries o (← copied v)
            m.assignSources o vs)
          (do
            m'.assignEntries p (← copied w)
            m'.assignSources p ws) fun _ _ _ => True := by
        refine (Related.copied hv).bind fun hle hl => ?_
        exact (h.assignEntries (hle.object hop) hl).bind fun hle' _ => hrest (World.le_trans hle hle')
      cases hv with
      -- The keys of an object are listed first; each is looked up again when its turn comes.
      | object hqr =>
        refine (Related.object hqr).bind fun hle hxy => ?_
        rw [hxy.ownKeys]
        exact (h.assignKeys (hle.object hop) (hle.object hqr) _).bind fun hle' _ =>
          hrest (World.le_trans hle hle')
      | _ => exact hcopied

/-- The walk and the new object correspond in every round. -/
theorem objectOfEntries (h : m.Agree φ m') (hv : ρ.value v w) :
    Related ρ K (m.objectOfEntries v) (m'.objectOfEntries w) fun σ v w => σ.value v w := by
  refine (Related.startWalk hv).bind fun hle hw => ?_
  refine Related.emptyObject.bind fun {_ o p} hle₁ ho => ?_
  rw [h.fuel]
  refine .iterate (I := fun σ w w' => Walk.Rel σ w w' ∧ σ.object o p) (fun hle₂ hI => ?_) _
    ⟨hw.mono hle₁, ho⟩
  obtain ⟨hw, ho⟩ := hI
  refine (Related.nextOf hw).bind fun {_ x y} hle₃ hxy => ?_
  obtain ⟨x, w₁⟩ := x
  obtain ⟨y, w₂⟩ := y
  obtain ⟨hv, hw⟩ := hxy
  dsimp only at hv hw
  cases hv with
  | none => exact .pure (.inr (.object (hle₃.object ho)))
  | @some x y hxy =>
    -- The message shows a value, which corresponding values do alike.
    have hraise : ∀ {σ : World} {R : World → Sum Walk Value → Sum Walk Value → Prop},
        σ.value x y → Related σ K
          (do raise .typeError ("Iterator value " ++ (← get).display x ++ " is not an entry object"))
          (do raise .typeError ("Iterator value " ++ (← get).display y ++ " is not an entry object"))
          R := by
      intro σ R hxy
      refine .get fun a b hab => ?_
      rw [hab.display hxy]
      exact .raise _ _
    cases hxy with
    | @object q r hqr =>
      refine (Related.getFrom hqr "0").bind fun hle₄ hk => ?_
      refine (Related.getFrom (hle₄.object hqr) "1").bind fun hle₅ hx => ?_
      refine (h.toKey (hk.mono hle₅)).bindEq fun hle₆ => ?_
      have hle₇ := World.le_trans hle₄ (World.le_trans hle₅ hle₆)
      refine (Related.defineOn (hle₇.object (hle₃.object ho)) _ (hx.mono hle₆)).bind
        fun hle₈ _ => ?_
      have hle₉ := World.le_trans hle₇ hle₈
      exact .pure (.inl ⟨hw.mono hle₉, hle₉.object (hle₃.object ho)⟩)
    | _ => exact hraise (.refl rfl)

theorem objectFunction (h : m.Agree φ m') (f : ObjectFunction) (hvs : ρ.values vs ws) :
    Related ρ K (m.objectFunction f vs) (m'.objectFunction f ws) fun σ v w => σ.value v w := by
  have hv := hvs.argument 0
  unfold Machine.objectFunction
  cases f with
  | assign =>
    dsimp only
    -- Only objects can be assigned to.
    generalize argument vs 0 = v, argument ws 0 = w at hv
    cases hv with
    | object hop =>
      exact (h.assignSources hop hvs.tail).bind fun hle _ => .pure (.object (hle.object hop))
    | undefined | null => exact .notAnObject
    | _ => exact .raise _ _
  | entries =>
    refine (Related.listedOf hv).bind fun _ hl => ?_
    refine (Related.mapM (R := fun σ v w => σ.value v w) (fun hle h => ⟨h.1, h.2.mono hle⟩)
      (fun hle h => h.mono hle) (fun {σ x y} _ hxy => ?_) hl).bind fun _ hvs => .arrayOf hvs
    obtain ⟨t, v⟩ := x
    obtain ⟨u, w⟩ := y
    obtain ⟨rfl, hv⟩ : t = u ∧ σ.value v w := hxy
    exact .arrayOf (.cons (.text t) (.cons hv .nil))
  | freeze => exact (Related.freeze hv).bind fun hle _ => .pure (hv.mono hle)
  | fromEntries => exact h.objectOfEntries hv
  | isFrozen => exact (Related.isFrozen hv).bindEq fun _ => .pure (.boolean _)
  | keys =>
    refine (Related.listedOf hv).bind fun _ hl => .arrayOf ?_
    refine List.forall₂_map_left_iff.mpr (List.forall₂_map_right_iff.mpr (hl.imp ?_))
    rintro ⟨t, v⟩ ⟨u, w⟩ ⟨rfl, -⟩
    exact .text t
  | values =>
    refine (Related.listedOf hv).bind fun _ hl => .arrayOf ?_
    exact List.forall₂_map_left_iff.mpr (List.forall₂_map_right_iff.mpr (hl.imp fun _ _ h => h.2))

theorem objectMethod (h : m.Agree φ m') (f : ObjectMethod) (hv : ρ.value v w)
    (hvs : ρ.values vs ws) :
    Related ρ K (m.objectMethod f v vs) (m'.objectMethod f w ws) fun σ v w => σ.value v w := by
  cases f with
  | hasOwnProperty =>
    refine (h.toKey (hvs.argument 0)).bindEq fun hle => ?_
    exact (Related.hasOwn (hv.mono hle) _).bindEq fun _ => .pure (.boolean _)
  | toString =>
    refine .get fun a b hab => ?_
    rw [Related.kindWord hab hv]
    exact .pure (.ofString _)

/-! ### Functions -/

theorem argumentsOf (h : m.Agree φ m') (hv : ρ.value v w) :
    Related ρ K (m.argumentsOf v) (m'.argumentsOf w) fun σ vs ws => σ.values vs ws := by
  cases hv with
  | object hop =>
    refine (Related.getFrom hop "length").bind fun hle hx => ?_
    refine (h.toLength hx).bindEq fun hle₁ => ?_
    have hop := hle₁.object (hle.object hop)
    split
    · exact .raise _ _
    · refine (Related.object hop).bind fun hle₂ hxy => ?_
      obtain ⟨h1, h2⟩ | ⟨e, f, h1, h2, hef⟩ := Option.rel_cases hxy.elements?
      · rw [h1, h2]
        refine .mapM (I := fun σ i j => i = j ∧ σ.object _ _) (fun hle h => ⟨h.1, hle.object h.2⟩)
          (fun hle h => h.mono hle) (fun _ hij => ?_)
          (List.forall₂_same.mpr fun _ _ => ⟨rfl, hle₂.object hop⟩)
        obtain ⟨rfl, hop⟩ := hij
        exact .getFrom hop _
      · rw [h1, h2]
        refine .pure ?_
        unfold Elements.toList
        rw [hef.length_eq]
        exact List.map_same (fun i => World.value?.getD (hef.get? i)) _
  | _ => exact .raise _ _

theorem functionMethod (h : m.Agree φ m') (f : FunctionMethod) (hv : ρ.value v w)
    (hvs : ρ.values vs ws) :
    Related ρ K (m.functionMethod f v vs) (m'.functionMethod f w ws) fun σ v w => σ.value v w := by
  refine .noting fun a b hab => ?_
  obtain ⟨σ, ext, hagree, hf⟩ := hab.function? hv
  -- What is a function on one side is the corresponding one on the other.
  refine ⟨σ, ext, hagree, ?_⟩
  obtain ⟨h1, h2⟩ | ⟨o, p, h1, h2, hop⟩ := Option.rel_cases hf
  · rw [h1, h2]
    exact .raise _ _
  · rw [h1, h2]
    have hvs := World.values.mono ext.le hvs
    cases f with
    | apply =>
      dsimp only
      rw [(hvs.argument 1).isNullish]
      split
      · exact h.call hop (hvs.argument 0) .nil
      · exact (h.argumentsOf (hvs.argument 1)).bind fun hle hxs =>
          h.call (hop.mono hle) ((hvs.argument 0).mono hle) hxs
    | call => exact h.call hop (hvs.argument 0) hvs.tail
    | toString =>
      refine .get fun a b hab => ?_
      rw [hab.functionSource hop.1]
      exact .pure (.ofString _)

theorem errorToString (h : m.Agree φ m') (hv : ρ.value v w) :
    Related ρ K (m.errorToString v) (m'.errorToString w) fun σ v w => σ.value v w := by
  cases hv with
  | object hop => exact (h.errorText hop).bindEq fun _ => .pure (.text _)
  | _ => exact .raise _ _

end Machine.Agree

end Scriptlet
