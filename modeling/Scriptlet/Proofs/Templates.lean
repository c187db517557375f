import Scriptlet.Proofs.Frozen

/-!
# Arrays for templates

Each realm keeps the arrays for the tagged templates in it, by the offset at which a template starts.
An array is put down there when its template is evaluated for the first time; it is new then, and frozen
as its array of spellings is.  Nothing else is ever done to what a realm keeps: entries are neither
replaced nor removed, and a new realm has none.

So a state in the middle of a run has the entries of all states before it, and the arrays are what they
were when they were put down.

## Main definitions

* `Agent.template?` — the array that a realm keeps for a template.
* `Agent.HasPieces` — an object is the frozen array of the pieces of a template.
* `Registry.Step` — what may happen to objects and realms.
* `registering` — the law of computations during which nothing else happens.

## Main results

* `templateObject_cases` — what evaluating a template does.
* `Registry.template?_of_steps`, `Registry.isSound_of_steps` — **entries stay**, and they are different
  arrays.
* `Registry.hasPieces_of_steps` — **the arrays stay as they are**.
* `registers_run`, `registers_answer` — nothing else happens, whatever is evaluated.
-/

namespace Scriptlet

open Eval Relation

/-! ### Arrays -/

namespace Template

/-- The values of the pieces: their texts, or undefined. -/
def pieces (t : Template) : List Value := t.quasis.map fun q => (q.value.map Value.text).getD .undefined

/-- The spellings of the pieces. -/
def spellings (t : Template) : List Value := t.quasis.map fun q => .ofString q.raw

/-- The frozen array of the pieces, which has that of the spellings as a property. -/
def array (t : Template) (raw : ObjectId) : Object :=
  Object.freeze ⟨.array (.ofList t.pieces), true, #[.hidden "raw" (.object raw)]⟩

/-- The frozen array of the spellings. -/
def rawArray (t : Template) : Object := (Object.ofKind (.array (.ofList t.spellings))).freeze

end Template

/-- The object is a frozen array of the given values, one behind the other. -/
structure Object.IsFrozenList (x : Object) (values : List Value) : Prop where
  isFrozen : x.isFrozen = true
  elements : ∃ e, x.elements? = some e ∧ e.length = values.length ∧ ∀ i, e.get? i = values[i]?

/-- The object is the array for a template: it is a frozen array of the texts of the pieces, or undefined
for those without a text, and its property `raw`, which is not listed and never changes, is a frozen
array of their spellings. -/
def Agent.HasPieces (a : Agent) (o : ObjectId) (t : Template) : Prop :=
  (a.object o).IsFrozenList t.pieces ∧ ∃ raw,
    (a.object o).ownProperty? "raw" = some (.fixed "raw" (.object raw)) ∧
      (a.object raw).IsFrozenList t.spellings

/-- The elements of a list are at its indices. -/
theorem Elements.get?_ofList {α : Type} (l : List α) (i : Nat) : (ofList l).get? i = l[i]? := by
  unfold ofList ofPlaces get?
  dsimp only
  by_cases h : i < l.length
  · rw [dif_pos (by simpa using h), List.getElem?_eq_getElem h]
    simp
  · rw [dif_neg (by simpa using h), List.getElem?_eq_none (Nat.le_of_not_lt h)]
    rfl

theorem Elements.length_ofList {α : Type} (l : List α) : (ofList l).length = l.length := by
  simp [ofList, ofPlaces]

/-- What shows a frozen array of values is one. -/
theorem Object.Shows.isFrozenList {values : List Value} {properties : Array Slot} {x : Object}
    (h : (Object.freeze ⟨.array (.ofList values), true, properties⟩).Shows x) :
    x.IsFrozenList values where
  isFrozen := (h.isSealed (Object.isSealed_freeze _)).isFrozen
  elements := ⟨_, h.elements, Elements.length_ofList values, Elements.get?_ofList values⟩

/-- An object is the frozen array of one list only. -/
theorem Object.IsFrozenList.unique {x : Object} {values others : List Value}
    (h : x.IsFrozenList values) (h' : x.IsFrozenList others) : values = others := by
  obtain ⟨e, he, -, hvalues⟩ := h.elements
  obtain ⟨e', he', -, hothers⟩ := h'.elements
  cases he.symm.trans he'
  exact List.ext_getElem? fun i => (hvalues i).symm.trans (hothers i)

theorem Template.ownProperty?_array (t : Template) (raw : ObjectId) :
    (t.array raw).ownProperty? "raw" = some (.fixed "raw" (.object raw)) := by
  have hkey : ("raw" : PropertyKey).arrayIndex? = none ∧
      ("raw" : PropertyKey).isNamed "length" = false := by decide +kernel
  unfold Template.array Object.freeze Object.ownProperty?
  dsimp only
  rw [hkey.1]
  dsimp only
  rw [hkey.2, if_neg Bool.false_ne_true]
  simp [Object.listed?, Slot.hidden, Slot.fixed]

/-! ### Registries -/

/-- The array that the realm keeps for the template at an offset. -/
def Realm.template? (r : Realm) (start : Nat) : Option ObjectId :=
  (r.templates.find? (·.1 == start)).map (·.2)

/-- The realm with another array. -/
def Realm.withTemplate (r : Realm) (start : Nat) (o : ObjectId) : Realm :=
  { r with templates := (start, o) :: r.templates }

theorem Realm.template?_withTemplate (r : Realm) (start k : Nat) (o : ObjectId) :
    (r.withTemplate start o).template? k = if start = k then some o else r.template? k := by
  unfold template? withTemplate
  by_cases h : start = k
  · rw [if_pos h, List.find?_cons_of_pos (by simpa using h)]
    rfl
  · rw [if_neg h, List.find?_cons_of_neg (by simpa using h)]

/-- Objects and realms. -/
structure Registry where
  /-- The objects. -/
  objects : Array Object
  /-- The realms. -/
  realms : Array Realm

/-- The objects and realms of an agent. -/
def Agent.registry (a : Agent) : Registry := ⟨a.objects, a.realms⟩

namespace Registry

variable {s s' : Registry} {r r' : RealmId} {k k' : Nat} {o raw : ObjectId} {t : Template}

/-- The array that a realm keeps for the template at an offset. -/
def template? (s : Registry) (r : RealmId) (k : Nat) : Option ObjectId :=
  s.realms[r.index]?.bind (·.template? k)

/-- The registry with new arrays for a template. -/
def withTemplate (s : Registry) (r : RealmId) (t : Template) : Registry where
  objects := (s.objects.push (t.array ⟨s.objects.size + 1⟩)).push t.rawArray
  realms := s.realms.modify r.index (·.withTemplate t.span.start ⟨s.objects.size⟩)

/-- What may happen to objects and realms. -/
inductive Step (s : Registry) : Registry → Prop
  | objects {l : Array Object} (h : Objects.Step s.objects l) : Step s ⟨l, s.realms⟩
  | realm {x : Realm} (h : x.templates = []) : Step s ⟨s.objects, s.realms.push x⟩
  | template {r : RealmId} {t : Template} (hr : r.index < s.realms.size)
    (h : s.template? r t.span.start = none) : Step s (s.withTemplate r t)

/-- An object shows the array for a template. -/
structure Presents (s : Registry) (o : ObjectId) (t : Template) (raw : ObjectId) : Prop where
  array : ∃ x, s.objects[o.index]? = some x ∧ (t.array raw).Shows x
  rawArray : ∃ x, s.objects[raw.index]? = some x ∧ t.rawArray.Shows x

/-- What realms keep are arrays for templates, different ones for each. -/
structure IsSound (s : Registry) : Prop where
  presents : ∀ {r k o}, s.template? r k = some o → ∃ t raw, t.span.start = k ∧ s.Presents o t raw
  unique : ∀ {r k r' k' o}, s.template? r k = some o → s.template? r' k' = some o → r = r' ∧ k = k'

/-! #### Entries -/

theorem template?_push {x : Realm} (h : x.templates = []) :
    (⟨s.objects, s.realms.push x⟩ : Registry).template? r k = s.template? r k := by
  unfold template?
  dsimp only
  rw [Array.getElem?_push]
  split
  · next heq =>
    have hnone : s.realms[r.index]? = none := by rw [heq, Array.getElem?_eq_none (Nat.le_refl _)]
    rw [hnone, Option.bind_some, Option.bind_none, Realm.template?, h]
    rfl
  · rfl

theorem template?_withTemplate (hr : r.index < s.realms.size) :
    (s.withTemplate r t).template? r' k' =
      if r = r' ∧ t.span.start = k' then some ⟨s.objects.size⟩ else s.template? r' k' := by
  unfold template? withTemplate
  dsimp only
  rw [Array.getElem?_modify]
  by_cases heq : r = r'
  · subst heq
    rw [if_pos rfl, Array.getElem?_eq_getElem hr, Option.map_some, Option.bind_some, Option.bind_some,
      Realm.template?_withTemplate]
    simp only [true_and]
  · have hne : r.index ≠ r'.index := by
      obtain ⟨i⟩ := r
      obtain ⟨j⟩ := r'
      exact fun h => heq (congrArg RealmId.mk h)
    rw [if_neg hne, if_neg fun h => heq h.1]

/-- **Entries stay.** -/
theorem Step.template? (h : s.Step s') (ho : s.template? r k = some o) :
    s'.template? r k = some o := by
  cases h with
  | objects h => exact ho
  | realm h => rwa [template?_push h]
  | @template r' t hr hnew =>
    rw [template?_withTemplate hr, if_neg]
    · exact ho
    · rintro ⟨rfl, rfl⟩
      rw [hnew] at ho
      cases ho

theorem template?_of_steps (h : ReflTransGen Step s s') (ho : s.template? r k = some o) :
    s'.template? r k = some o := by
  induction h with
  | refl => exact ho
  | tail _ hstep ih => exact hstep.template? ih

/-! #### Arrays -/

/-- An object that leaves no room for change is there after a step, and shows the same. -/
theorem Step.shows {i : Nat} {x y : Object} (h : s.Step s') (hy : y.IsSealed)
    (hx : s.objects[i]? = some x) (hshows : y.Shows x) :
    ∃ x', s'.objects[i]? = some x' ∧ y.Shows x' := by
  cases h with
  | objects h =>
    exact h.keeps (fun hz hchange => hz.trans (hchange.shows (hz.isSealed hy))) hx hshows
  | realm h => exact ⟨x, hx, hshows⟩
  | template hr hnew =>
    have hlt := (Array.getElem?_eq_some_iff.mp hx).1
    refine ⟨x, ?_, hshows⟩
    unfold withTemplate
    dsimp only
    rw [Array.getElem?_push_lt (by rw [Array.size_push]; omega), Array.getElem_push_lt hlt,
      ← Array.getElem?_eq_getElem hlt, hx]

/-- **An object that leaves no room for change** shows the same after any number of steps. -/
theorem shows_of_steps {i : Nat} {x y : Object} (h : ReflTransGen Step s s') (hy : y.IsSealed)
    (hx : s.objects[i]? = some x) (hshows : y.Shows x) :
    ∃ x', s'.objects[i]? = some x' ∧ y.Shows x' := by
  induction h with
  | refl => exact ⟨x, hx, hshows⟩
  | tail _ hstep ih =>
    obtain ⟨z, hz, hzshows⟩ := ih
    exact hstep.shows hy hz hzshows

theorem presents_of_steps (h : ReflTransGen Step s s') (ho : s.Presents o t raw) :
    s'.Presents o t raw := by
  obtain ⟨⟨x, hx, hshows⟩, y, hy, hraw⟩ := ho
  exact ⟨shows_of_steps h (Object.isSealed_freeze _) hx hshows,
    shows_of_steps h (Object.isSealed_freeze _) hy hraw⟩

/-- New arrays are arrays for their template. -/
theorem presents_withTemplate (s : Registry) (r : RealmId) (t : Template) :
    (s.withTemplate r t).Presents ⟨s.objects.size⟩ t ⟨s.objects.size + 1⟩ := by
  refine ⟨⟨t.array ⟨s.objects.size + 1⟩, ?_, .refl _⟩, t.rawArray, ?_, .refl _⟩
  · change ((s.objects.push _).push _)[s.objects.size]? = _
    rw [Array.getElem?_push_lt (by rw [Array.size_push]; exact Nat.lt_succ_self _),
      Array.getElem_push_eq]
  · change ((s.objects.push _).push _)[s.objects.size + 1]? = _
    rw [Array.getElem?_push, Array.size_push, if_pos rfl]

/-- **Steps keep a registry sound.** -/
theorem Step.isSound (h : s.Step s') (hs : s.IsSound) : s'.IsSound := by
  have hkeeps : ∀ {r k o}, s.template? r k = some o →
      ∃ t raw, t.span.start = k ∧ s'.Presents o t raw := fun ho => by
    obtain ⟨t, raw, ht, hpresents⟩ := hs.presents ho
    exact ⟨t, raw, ht, presents_of_steps (.single h) hpresents⟩
  cases h with
  | objects h => exact ⟨hkeeps, hs.unique⟩
  | realm h =>
    constructor
    · intro r k o ho
      exact hkeeps (template?_push h ▸ ho)
    · intro r k r' k' o ho ho'
      exact hs.unique (template?_push h ▸ ho) (template?_push h ▸ ho')
  | @template q t hr hnew =>
    -- What has been kept before is there, and so it is not the new array.
    have hold : ∀ {r k o}, s.template? r k = some o → o ≠ ⟨s.objects.size⟩ := by
      rintro r k o ho rfl
      obtain ⟨-, -, -, ⟨x, hx, -⟩, -⟩ := hs.presents ho
      exact absurd (Array.getElem?_eq_some_iff.mp hx).1 (Nat.lt_irrefl _)
    have hentry : ∀ {r k o}, (s.withTemplate q t).template? r k = some o →
        (q = r ∧ t.span.start = k ∧ o = ⟨s.objects.size⟩) ∨
          s.template? r k = some o := by
      intro r k o ho
      rw [template?_withTemplate hr] at ho
      split at ho
      · next heq => exact .inl ⟨heq.1, heq.2, (Option.some.inj ho).symm⟩
      · exact .inr ho
    constructor
    · intro r k o ho
      rcases hentry ho with ⟨rfl, rfl, rfl⟩ | ho
      · exact ⟨t, _, rfl, presents_withTemplate s q t⟩
      · exact hkeeps ho
    · intro r k r' k' o ho ho'
      rcases hentry ho with ⟨rfl, rfl, hnewest⟩ | ho
      · rcases hentry ho' with ⟨rfl, rfl, -⟩ | ho'
        · exact ⟨rfl, rfl⟩
        · exact absurd hnewest (hold ho')
      · rcases hentry ho' with ⟨-, -, hnewest⟩ | ho'
        · exact absurd hnewest (hold ho)
        · exact hs.unique ho ho'

theorem isSound_of_steps (h : ReflTransGen Step s s') (hs : s.IsSound) : s'.IsSound := by
  induction h with
  | refl => exact hs
  | tail _ hstep ih => exact hstep.isSound ih

end Registry

namespace Agent

variable {a b : Agent} {r : RealmId} {k : Nat} {o raw : ObjectId} {t u : Template}

/-- The array that a realm keeps for the template at an offset. -/
def template? (a : Agent) (r : RealmId) (k : Nat) : Option ObjectId := a.registry.template? r k

/-- What shows the array for a template is one. -/
theorem hasPieces_of_presents (h : a.registry.Presents o t raw) : a.HasPieces o t := by
  obtain ⟨⟨x, hx, hshows⟩, y, hy, hraw⟩ := h
  have hobject : a.object o = x := by rw [object_eq_getD]; exact hx ▸ rfl
  have hspellings : a.object raw = y := by rw [object_eq_getD]; exact hy ▸ rfl
  refine ⟨hobject ▸ hshows.isFrozenList, raw, ?_, hspellings ▸ hraw.isFrozenList⟩
  rw [hobject, hshows.ownProperty?, t.ownProperty?_array]

/-- What shows the array for a template is that for no other pieces. -/
theorem hasPieces_iff (h : a.registry.Presents o u raw) :
    a.HasPieces o t ↔ t.pieces = u.pieces ∧ t.spellings = u.spellings := by
  obtain ⟨hpieces, raw', hraw, hspellings⟩ := hasPieces_of_presents h
  constructor
  · rintro ⟨hpieces', raw'', hraw', hspellings'⟩
    cases hraw.symm.trans hraw'
    exact ⟨hpieces'.unique hpieces, hspellings'.unique hspellings⟩
  · rintro ⟨heq, heq'⟩
    exact ⟨heq ▸ hpieces, raw', hraw, heq' ▸ hspellings⟩

/-- **Arrays for templates stay as they are.** -/
theorem hasPieces_of_steps (ha : a.registry.IsSound) (h : ReflTransGen Registry.Step a.registry b.registry)
    (ho : a.template? r k = some o) : b.HasPieces o t ↔ a.HasPieces o t := by
  obtain ⟨u, raw, -, hpresents⟩ := ha.presents ho
  have hlater := Registry.presents_of_steps h hpresents
  exact (hasPieces_iff hlater).trans (hasPieces_iff hpresents).symm

/-- The agent with new arrays for a template. -/
def withTemplate (a : Agent) (r : RealmId) (t : Template) : Agent :=
  { a with objects := (a.registry.withTemplate r t).objects
           realms := (a.registry.withTemplate r t).realms }

end Agent

/-! ### Evaluation of templates -/

/-- **The array for a template** is the one that the realm keeps, or a new one that it keeps from then on,
or there is none as something is missing or the template has too many pieces. -/
theorem templateObject_cases (t : Template) (a : Agent) :
    (∃ i, templateObject t a = .error i a) ∨
    ∃ c, context a = .ok c a ∧ c.realm.index < a.realms.size ∧
      ((∃ o, a.template? c.realm t.span.start = some o ∧ templateObject t a = .ok o a) ∨
        a.template? c.realm t.span.start = none ∧
          templateObject t a = .ok ⟨a.objects.size⟩ (a.withTemplate c.realm t)) := by
  -- A context and its realm there are, or the task fails before it changes anything; a template that
  -- is kept is given back as it is.
  cases hc : a.contexts with
  | nil =>
    exact .inl ⟨_, bind_error (context_of_nil hc)⟩
  | cons c rest =>
    have hcontext := context_eq hc
    cases hx : a.realms[c.realm.index]? with
    | none =>
      have hrealm : realm a = _ := (bind_ok hcontext).trans (realmAt_of_none hx)
      exact .inl ⟨_, (bind_ok hcontext).trans (bind_error hrealm)⟩
    | some x =>
      have hrealm : realm a = _ := (bind_ok hcontext).trans (realmAt_eq hx)
      have hkept : a.template? c.realm t.span.start = x.template? t.span.start := by
        unfold Agent.template? Registry.template?
        rw [Agent.registry, hx, Option.bind_some]
      have hlt := (Array.getElem?_eq_some_iff.mp hx).1
      unfold templateObject
      rw [bind_ok hcontext]
      dsimp only
      rw [bind_ok hrealm]
      cases hfind : x.templates.find? (·.1 == t.span.start) with
      | some p =>
        refine .inr ⟨c, hcontext, hlt, .inl ⟨p.2, hkept.trans ?_, rfl⟩⟩
        rw [Realm.template?, hfind, Option.map_some]
      | none =>
        dsimp only
        by_cases hlong : maxArrayLength < t.quasis.length
        · have hexhausted : allocateArray (.ofList t.pieces) = throw .exhausted :=
            if_pos (by rwa [Elements.length_ofList, Template.pieces, List.length_map])
          unfold Template.pieces at hexhausted
          rw [hexhausted]
          exact .inl ⟨.exhausted, rfl⟩
        · rw [allocateArray_eq (by rwa [Elements.length_ofList, List.length_map]),
            allocateArray_eq (by rwa [Elements.length_ofList, List.length_map])]
          have hnone : x.template? t.span.start = none := by rw [Realm.template?, hfind, Option.map_none]
          refine .inr ⟨c, hcontext, hlt, .inr ⟨hkept.trans hnone, ?_⟩⟩
          let y : Object := .ofKind (.array (.ofList t.pieces))
          let z : Object := .ofKind (.array (.ofList t.spellings))
          let f : Object → Object := fun p =>
            { p with properties := p.properties.push (.hidden "raw" (.object ⟨(a.objects.push y).size⟩)) }.freeze
          have hy : f y = t.array ⟨a.objects.size + 1⟩ := by
            dsimp only [f]
            rw [Array.size_push]
            rfl
          -- The two arrays are pushed one after the other and frozen afterwards.
          have hobjects : (((a.objects.push y).push z).modify (a.objects.push y).size (·.freeze)).modify
              a.objects.size f = (a.registry.withTemplate c.realm t).objects := by
            rw [modify_push_size, modify_push_lt (by rw [Array.size_push]; exact Nat.lt_succ_self _),
              modify_push_size, hy]
            rfl
          unfold Agent.withTemplate
          rw [← hobjects]
          rfl

/-! ### All evaluation -/

namespace Agent

variable {a b c : Agent}

/-- The objects and realms of the second agent come of those of the first one by steps. -/
def Registers (a b : Agent) : Prop := ReflTransGen Registry.Step a.registry b.registry

theorem Registers.refl (a : Agent) : a.Registers a := ReflTransGen.refl

theorem Registers.trans (h : a.Registers b) (h' : b.Registers c) : a.Registers c :=
  ReflTransGen.trans h h'

theorem Registers.of_same (h : b.registry = a.registry) : a.Registers b := by
  unfold Registers
  rw [h]

/-- What leaves objects and realms does not matter at the end of either side. -/
theorem Registers.ending (h : a.Registers b) {f : Agent → Agent}
    (hf : ∀ c, (f c).objects = c.objects ∧ (f c).realms = c.realms) : (f a).Registers (f b) := by
  have hsame : ∀ c, (f c).registry = c.registry := fun c => by
    rw [registry, (hf c).1, (hf c).2, registry]
  unfold Registers
  rwa [hsame, hsame]

/-- Objects evolve beside the realms. -/
theorem Evolves.registers (h : a.Evolves b) (hrealms : b.realms = a.realms) : a.Registers b := by
  have hlift : ReflTransGen Registry.Step ⟨a.objects, a.realms⟩ ⟨b.objects, a.realms⟩ :=
    h.objects.lift (fun l => (⟨l, a.realms⟩ : Registry)) fun _ _ hstep => .objects hstep
  unfold Registers registry
  rwa [hrealms]

end Agent

/-- The computation leads to what agents come to by steps of objects and realms. -/
abbrev Registering {α : Type} (p : Eval α) : Prop := Leads Agent.Registers p

/-- The realms stay, as far as this is about what is created. -/
def Realm.staying : CreationLaw where
  Holds := Leads fun a b => b.realms = a.realms
  CountsOnKeys := False
  pure _ _ := rfl
  throw _ _ := rfl
  get _ := rfl
  bindOf h hf := h.seqOf (fun h h' => h'.trans h) fun a x b => hf a x b False.elim
  extend f hf a := by
    obtain ⟨news, -, h⟩ := hf a
    exact h.realms
  newEnvironment _ _ := rfl
  updateEnvironment e f := by
    refine Leads.seq (fun h h' => h'.trans h) (Leads.seq (fun h h' => h'.trans h) (fun _ => rfl) ?_)
      fun _ _ => rfl
    intro a
    split <;> exact fun _ => rfl

namespace Registering

variable {α : Type} {p : Eval α}

/-- What lets objects evolve and leaves the realms. -/
theorem of_evolving (h : Evolving p) (hrealms : Leads (fun a b => b.realms = a.realms) p) :
    Registering p := fun a => (h a).registers (hrealms a)

theorem bind {β : Type} {f : α → Eval β} (h : Registering p) (hf : ∀ x, Registering (f x)) :
    Registering (p >>= f) := h.seq .trans hf

theorem modifyObject (id : ObjectId) {f : Object → Object} (hf : ∀ o : Object, o.Change (f o)) :
    Registering (Eval.modifyObject id f) := of_evolving (.modifyObject id hf) fun _ => rfl

theorem realms_changeObject (id : ObjectId) (f : Object → α × Object) (missing : α) (a : Agent) :
    ((Eval.changeObject id f missing).after a).realms = a.realms := by
  rw [after_changeObject]
  rfl

theorem changeObject (id : ObjectId) {f : Object → α × Object} (hf : ∀ o : Object, o.Change (f o).2)
    (missing : α) : Registering (Eval.changeObject id f missing) :=
  of_evolving (.changeObject id hf missing) (realms_changeObject id f missing)

theorem changeArray (id : ObjectId) (f : Elements Value → α × Elements Value) (missing : α) :
    Registering (Eval.changeArray id f missing) :=
  of_evolving (.changeArray id f missing) <| Realm.staying.bind (Realm.staying.requireThawed id)
    fun _ => realms_changeObject id _ missing

/-- **The array for a template** is registered if there is none. -/
theorem templateObject (t : Template) : Registering (Eval.templateObject t) := by
  intro a
  obtain ⟨i, hi⟩ | ⟨c, -, hc, ⟨o, -, ho⟩ | ⟨hnone, ho⟩⟩ := templateObject_cases t a
  · exact .of_same (congrArg Agent.registry (after_error hi))
  · exact .of_same (congrArg Agent.registry (after_ok ho))
  · rw [after_ok ho]
    exact .single (.template hc hnone)

theorem newRealm {r : Realm} (hr : r.templates = []) : Registering (Eval.newRealm r) := fun _ =>
  .single (.realm hr)

/-! #### What is around a computation -/

theorem ending (f : Agent → Agent) (hf : ∀ a, (f a).registry = a.registry) (h : Registering p) :
    Registering (Eval.ending p f) := fun a => by
  unfold Agent.Registers
  rw [after_ending, hf]
  exact h a

theorem registry_withEnvironmentOf (e : EnvironmentId) (a : Agent) :
    (withEnvironmentOf e a).registry = a.registry := by
  unfold withEnvironmentOf
  split <;> rfl

theorem setEnvironment (e : EnvironmentId) : Registering (Eval.setEnvironment e) := by
  refine Registering.bind (p := MonadState.get) .refl fun a => ?_
  split
  · exact fun _ => .of_same rfl
  · exact .refl

theorem registry_tidy (t : Tidying) (a : Agent) : (t.apply a).registry = a.registry := by
  cases t with
  | nothing | removal => rfl
  | collection =>
    change a.collect.registry = _
    unfold Agent.collect
    split <;> rfl

theorem concluding (t : Tidying) {p : Eval Value} (h : Registering p) :
    Registering (Eval.concluding t.apply p) := by
  intro a
  have hreport : ∀ (b : Agent) v, (b.reportUncaught v).registry = b.registry := by
    intro b v
    unfold Agent.reportUncaught
    split <;> rfl
  unfold Agent.Registers
  rcases after_concluding t.apply p a with heq | ⟨v, heq⟩
  · rw [heq, registry_tidy]
    exact h a
  · rw [heq, hreport, registry_tidy]
    exact h a

end Registering

/-- **The law of computations that register arrays for templates.** -/
def registering : SessionLaw where
  Holds := Registering
  CountsOnKeys := False
  pure _ := .refl
  throw _ := .refl
  get := .refl
  bindOf h hf := h.seqOf .trans fun a x b => hf a x b False.elim
  catching := Leads.catching .trans
  followedBy := Leads.followedBy .trans
  joining _ h := Registering.bind (fun _ => .of_same rfl) fun _ => Registering.ending _ (fun _ => rfl) h
  adjust f hf := .of_evolving (evolution.adjust f hf) fun a => (hf a).realms
  newRealm _ := Registering.newRealm
  allocate o ho := .of_evolving (evolution.allocate o ho) (Realm.staying.allocate o nofun)
  method b := .of_evolving (evolution.method b) <| .method (fun _ => rfl) fun _ => rfl
  functionValue f := .of_evolving (evolution.functionValue f) (Realm.staying.functionValue f)
  templateObject := Registering.templateObject
  causedError kind message cause := .of_evolving (evolution.causedError kind message cause)
    (Realm.staying.causedError kind message cause)
  nameFunction v name := by
    cases v with
    | object i => exact Registering.modifyObject i fun _ => .withName name
    | _ => exact .refl
  freeze v := by
    cases v with
    | object i => exact Registering.modifyObject i fun _ => .freeze
    | _ => exact .refl
  delete i k := Registering.changeObject i (fun _ => .delete k) true
  setLength i n _ := Registering.changeObject i (fun _ => .setLength n) false
  write i k v _ hp := by
    refine Registering.bind (Registering.bind .refl fun _ => .refl) fun o => ?_
    split
    · exact hp
    · exact Registering.changeObject i (fun _ => .write k v) false
  define i k v := Registering.changeObject i (fun _ => .define k v) false
  changeArray i f missing _ := Registering.changeArray i f missing
  growArray i count f _ := Registering.bind (.of_evolving (Evolving.creation.requireRoom i count)
    (Realm.staying.requireRoom i count)) fun _ => Registering.changeArray i _ ()
  deleteVariable e name := .of_evolving (evolution.deleteVariable e name)
    (Realm.staying.deleteVariable e name)
  Roams := Registering
  roam := id
  bindRoaming := Registering.bind
  iterateRoaming := Leads.iterate .refl .trans
  setEnvironment := Registering.setEnvironment
  inEnvironment e h := by
    refine Registering.bind ?_ fun old => Registering.bind (Registering.setEnvironment e) fun _ => ?_
    · exact .of_evolving Evolving.creation.environment Realm.staying.environment
    · exact Registering.ending _ (Registering.registry_withEnvironmentOf old) h
  inContext _ h := Registering.bind (fun _ => .of_same rfl) fun _ =>
    Registering.ending _ (fun _ => rfl) h
  newEnvironment outer := .of_evolving (evolution.newEnvironment outer) fun _ => rfl
  createVariable e name v hv := .of_evolving (evolution.createVariable e name v hv)
    (Realm.staying.updateEnvironment e _)
  initializeVariable e name v := .of_evolving (evolution.initializeVariable e name v)
    (Realm.staying.initializeVariable e name v)
  writeVariable e name v isStrict := .of_evolving (evolution.writeVariable e name v isStrict)
    (Realm.staying.writeVariable e name v isStrict)
  tidy t a := .of_same (Registering.registry_tidy t a)
  concluding t h := Registering.concluding t h

theorem registering_free : ¬registering.CountsOnKeys := id

/-- Computations that may leave another environment register at most as well. -/
theorem registering_settled {α : Type} {p : Eval α} : registering.Roams p → registering.Holds p := id

/-- **Every task registers arrays for templates** at most. -/
theorem registers_run (n : Nat) {α : Type} (t : Task α) : Registering (Task.run n t) :=
  registering.ofDepth n t

/-- **Whatever a host asks for registers arrays for templates** at most. -/
theorem registers_answer (n : Nat) (r : Request) (t : Tidying) : Registering (r.answer (.ofDepth n) t) :=
  SessionLaw.answer (registering.ofDepth n) t r

end Scriptlet
