import Scriptlet.Scope.Basic

/-!
# Names of scopes

Which names a scope declares, and in which ways, follows the syntax that the scope belongs to; the
functions that are instantiated on entry are among the statements.

## Main definitions

* `Scope.hasKind` — a scope declares a name in a given way.
* `Scope.IsSettled` — every name is declared in some way, and every function has its name declared.

## Main results

* `Scope.has_ofHead`, `Scope.has_ofHandler`, `Scope.has_ofName`, `Scope.has_ofParameters` — the names
  of simple scopes.
* `Scope.hasKind_parameter_ofFunction` — the parameters of a function.
* `Scope.isSettled_ofFunction`, `Scope.isSettled_ofStatements` — scopes are settled.
* `Scope.mem_functions` — **functions that are instantiated are statements with body and name**.
* `Scope.hasKind_lexical` — **names that statements declare for their list are in its scope**.
-/

namespace Scriptlet

/-- The names that a statement of a list declares for the list without a value to start with. -/
def Stmt.lexicalNames : Stmt → List String
  | .declaration d => if d.kind.isLexical then d.names else []
  | _ => []

theorem Declaration.isKind_adding (d : Declaration) (k j : DeclarationKind) :
    (d.adding k).isKind j = true ↔ d.isKind j = true ∨ j = k := by
  unfold Declaration.adding
  split
  · rename_i h
    constructor
    · exact .inl
    · rintro (hj | rfl)
      · exact hj
      · exact h
  · simp only [Declaration.isKind, List.contains_iff_mem, List.mem_append, List.mem_singleton]

theorem Declaration.name_adding (d : Declaration) (k : DeclarationKind) :
    (d.adding k).name = d.name := by
  unfold Declaration.adding
  split <;> rfl

namespace Scope

/-- The scope declares a name in the given way. -/
def hasKind (s : Scope) (name : String) (k : DeclarationKind) : Prop :=
  ∃ d ∈ s.declarations, d.name = name ∧ d.isKind k = true

/-- Every name is declared in some way, and the names of functions are declared as such. -/
structure IsSettled (s : Scope) : Prop where
  kinds : ∀ n, s.has n = true → ∃ k, s.hasKind n k
  functions : ∀ f ∈ s.functions, ∀ n, f.name = some n → s.hasKind n .function

theorem has_iff {s : Scope} {n : String} : s.has n = true ↔ ∃ d ∈ s.declarations, d.name = n := by
  unfold has
  rw [List.any_eq_true]
  simp only [beq_iff_eq]

theorem has_of_hasKind {s : Scope} {n : String} {k : DeclarationKind} (h : s.hasKind n k) :
    s.has n = true := by
  obtain ⟨d, hd, hn, -⟩ := h
  exact has_iff.mpr ⟨d, hd, hn⟩

/-! ### More declarations -/

theorem hasKind_declare (s : Scope) (n m : String) (k j : DeclarationKind) :
    (s.declare n k).hasKind m j ↔ s.hasKind m j ∨ m = n ∧ j = k := by
  unfold declare
  -- A name declared again gets one more kind, a new one comes last.
  split
  · rename_i hn
    constructor
    · rintro ⟨d', hd', rfl, hj⟩
      obtain ⟨d, hd, rfl⟩ := List.mem_map.mp hd'
      split at hj
      · rename_i hdn
        rw [if_pos hdn, Declaration.name_adding]
        rcases (d.isKind_adding k j).mp hj with hj | rfl
        · exact .inl ⟨d, hd, rfl, hj⟩
        · exact .inr ⟨beq_iff_eq.mp hdn, rfl⟩
      · rename_i hdn
        rw [if_neg hdn]
        exact .inl ⟨d, hd, rfl, hj⟩
    · rintro (⟨d, hd, rfl, hj⟩ | ⟨rfl, rfl⟩)
      · refine ⟨_, List.mem_map.mpr ⟨d, hd, rfl⟩, ?_⟩
        split
        · exact ⟨d.name_adding k, (d.isKind_adding k j).mpr (.inl hj)⟩
        · exact ⟨rfl, hj⟩
      · obtain ⟨d, hd, rfl⟩ := has_iff.mp hn
        refine ⟨_, List.mem_map.mpr ⟨d, hd, rfl⟩, ?_⟩
        rw [if_pos (beq_self_eq_true _)]
        exact ⟨d.name_adding j, (d.isKind_adding j j).mpr (.inr rfl)⟩
  · unfold hasKind
    simp only [List.mem_append, List.mem_singleton]
    constructor
    · rintro ⟨d, hd | rfl, rfl, hj⟩
      · exact .inl ⟨d, hd, rfl, hj⟩
      · refine .inr ⟨rfl, ?_⟩
        simpa [Declaration.isKind] using hj
    · rintro (⟨d, hd, rfl, hj⟩ | ⟨rfl, rfl⟩)
      · exact ⟨d, .inl hd, rfl, hj⟩
      · exact ⟨⟨m, [j]⟩, .inr rfl, rfl, by simp [Declaration.isKind]⟩

theorem has_declare (s : Scope) (n m : String) (k : DeclarationKind) :
    (s.declare n k).has m = true ↔ s.has m = true ∨ m = n := by
  rw [has_iff, has_iff]
  unfold declare
  -- Declaring again changes the kinds and no name.
  split
  · rename_i hn
    constructor
    · rintro ⟨d', hd', rfl⟩
      obtain ⟨d, hd, rfl⟩ := List.mem_map.mp hd'
      refine .inl ⟨d, hd, ?_⟩
      split
      · exact (d.name_adding k).symm
      · rfl
    · rintro (⟨d, hd, rfl⟩ | rfl)
      · refine ⟨_, List.mem_map.mpr ⟨d, hd, rfl⟩, ?_⟩
        split
        · exact d.name_adding k
        · rfl
      · obtain ⟨d, hd, rfl⟩ := has_iff.mp hn
        refine ⟨_, List.mem_map.mpr ⟨d, hd, rfl⟩, ?_⟩
        split
        · exact d.name_adding k
        · rfl
  · simp only [List.mem_append, List.mem_singleton]
    constructor
    · rintro ⟨d, hd | rfl, rfl⟩
      · exact .inl ⟨d, hd, rfl⟩
      · exact .inr rfl
    · rintro (⟨d, hd, rfl⟩ | rfl)
      · exact ⟨d, .inl hd, rfl⟩
      · exact ⟨⟨m, [k]⟩, .inr rfl, rfl⟩

theorem functions_declare (s : Scope) (n : String) (k : DeclarationKind) :
    (s.declare n k).functions = s.functions := by
  unfold declare
  split <;> rfl

theorem IsSettled.declare {s : Scope} (h : s.IsSettled) (n : String) (k : DeclarationKind) :
    (s.declare n k).IsSettled where
  kinds := by
    intro m hm
    rcases (has_declare s n m k).mp hm with hm | rfl
    · obtain ⟨j, hj⟩ := h.kinds m hm
      exact ⟨j, (hasKind_declare ..).mpr (.inl hj)⟩
    · exact ⟨k, (hasKind_declare ..).mpr (.inr ⟨rfl, rfl⟩)⟩
  functions := by
    intro f hf m hm
    rw [functions_declare] at hf
    exact (hasKind_declare ..).mpr (.inl (h.functions f hf m hm))

theorem isSettled_empty (kind : ScopeKind) : (empty kind).IsSettled :=
  ⟨fun n hn => by simp [empty, has] at hn, fun f hf => by simp [empty] at hf⟩

/-! ### Several names -/

theorem hasKind_declareAll (s : Scope) (ns : List String) (m : String) (k j : DeclarationKind) :
    (s.declareAll ns k).hasKind m j ↔ s.hasKind m j ∨ m ∈ ns ∧ j = k := by
  induction ns generalizing s with
  | nil => simp [declareAll]
  | cons n ns ih =>
    change ((s.declare n k).declareAll ns k).hasKind m j ↔ _
    rw [ih, hasKind_declare, List.mem_cons, or_assoc, ← or_and_right]

theorem has_declareAll (s : Scope) (ns : List String) (m : String) (k : DeclarationKind) :
    (s.declareAll ns k).has m = true ↔ s.has m = true ∨ m ∈ ns := by
  induction ns generalizing s with
  | nil => simp [declareAll]
  | cons n ns ih =>
    change ((s.declare n k).declareAll ns k).has m = true ↔ _
    rw [ih, has_declare, List.mem_cons, or_assoc]

theorem functions_declareAll (s : Scope) (ns : List String) (k : DeclarationKind) :
    (s.declareAll ns k).functions = s.functions := by
  induction ns generalizing s with
  | nil => rfl
  | cons n ns ih =>
    change ((s.declare n k).declareAll ns k).functions = _
    rw [ih, functions_declare]

theorem IsSettled.declareAll {s : Scope} (h : s.IsSettled) (ns : List String)
    (k : DeclarationKind) : (s.declareAll ns k).IsSettled := by
  induction ns generalizing s with
  | nil => exact h
  | cons n ns ih => exact ih (h.declare n k)

theorem has_empty (kind : ScopeKind) (n : String) : (empty kind).has n = false := rfl

/-- The names of the head of a loop. -/
theorem has_ofHead (d : VarDecl) (n : String) : (ofHead d).has n = true ↔ n ∈ d.names := by
  unfold ofHead
  rw [has_declareAll, has_empty]
  simp

/-- The names of a handler. -/
theorem has_ofHandler (p : Option Pattern) (n : String) :
    (ofHandler p).has n = true ↔ n ∈ restNames p := by
  unfold ofHandler
  rw [has_declareAll, has_empty]
  simp

/-- The name of a function expression. -/
theorem has_ofName (name n : String) : (ofName name).has n = true ↔ n = name := by
  unfold ofName
  rw [has_declare, has_empty]
  simp

/-- The names of the parameters of a function. -/
theorem has_ofParameters (f : Function) (n : String) :
    (ofParameters f).has n = true ↔ n ∈ f.parameterNames := by
  unfold ofParameters
  rw [has_declareAll, has_empty]
  simp

/-! ### Statements -/

/-- Hoisting a function leaves the scope as it is, or instantiates the function. -/
theorem hoist_cases (s : Scope) (f : Function) :
    s.hoist f = s ∨ ∃ n, f.name = some n ∧ f.isBodiless = false ∧ s.hoist f =
      { s.declare n .function with
        functions := s.functions.filter (fun g => g.name != some n) ++ [f] } := by
  unfold hoist Function.isBodiless
  cases hn : f.name with
  | none => exact .inl rfl
  | some n =>
    cases f.body with
    | absent => exact .inl rfl
    | block _ _ => exact .inr ⟨n, rfl, rfl, by rw [← functions_declare s n .function]; rfl⟩
    | concise _ => exact .inr ⟨n, rfl, rfl, by rw [← functions_declare s n .function]; rfl⟩

/-- What a scope declares does not depend on its functions. -/
theorem hasKind_withFunctions (s : Scope) (fs : List Function) (n : String)
    (k : DeclarationKind) : ({ s with functions := fs } : Scope).hasKind n k ↔ s.hasKind n k :=
  Iff.rfl

/-- A scope after a statement still has what it had. -/
theorem hasKind_declareStatement {s : Scope} {n : String} {k : DeclarationKind}
    (h : s.hasKind n k) (t : Stmt) : (s.declareStatement t).hasKind n k := by
  cases t with
  | declaration d =>
    unfold declareStatement
    dsimp only
    split
    · exact (hasKind_declareAll ..).mpr (.inl h)
    · exact h
  | function f =>
    rcases hoist_cases s f with hs | ⟨m, -, -, hs⟩
    · exact (congrArg (hasKind · n k) hs).mpr h
    · exact (congrArg (hasKind · n k) hs).mpr ((hasKind_declare ..).mpr (.inl h))
  | _ => exact h

/-- Statements declare no parameters. -/
theorem hasKind_parameter_declareStatement {s : Scope} {n : String} {t : Stmt}
    (h : (s.declareStatement t).hasKind n .parameter) : s.hasKind n .parameter := by
  cases t with
  | declaration d =>
    unfold declareStatement at h
    dsimp only at h
    split at h
    · rcases (hasKind_declareAll ..).mp h with h | ⟨-, hk⟩
      · exact h
      · unfold VarDecl.declarationKind at hk
        split at hk <;> cases hk
    · exact h
  | function f =>
    rcases hoist_cases s f with hs | ⟨m, -, -, hs⟩
    · exact (congrArg (hasKind · n _) hs).mp h
    · rcases (hasKind_declare ..).mp ((congrArg (hasKind · n _) hs).mp h) with h | ⟨-, hk⟩
      · exact h
      · cases hk
  | _ => exact h

theorem IsSettled.declareStatement {s : Scope} (h : s.IsSettled) (t : Stmt) :
    (s.declareStatement t).IsSettled := by
  cases t with
  | declaration d =>
    unfold Scope.declareStatement
    dsimp only
    split
    · exact h.declareAll _ _
    · exact h
  | function f =>
    change (s.hoist f).IsSettled
    rcases hoist_cases s f with hs | ⟨n, hn, -, hs⟩
    · rw [hs]
      exact h
    · rw [hs]
      refine ⟨(h.declare n .function).kinds, fun g hg m hm => ?_⟩
      rw [hasKind_withFunctions, hasKind_declare]
      rcases List.mem_append.mp hg with hg | hg
      · exact .inl (h.functions g (List.mem_filter.mp hg).1 m hm)
      · rw [List.mem_singleton.mp hg, hn] at hm
        cases hm
        exact .inr ⟨rfl, rfl⟩
  | _ => exact h

/-- Functions that are instantiated are among the statements, and have a body. -/
theorem mem_functions_declareStatement {s : Scope} {t : Stmt} {f : Function}
    (h : f ∈ (s.declareStatement t).functions) :
    f ∈ s.functions ∨ t = .function f ∧ f.isBodiless = false := by
  cases t with
  | declaration d =>
    unfold declareStatement at h
    dsimp only at h
    split at h
    · rw [functions_declareAll] at h
      exact .inl h
    · exact .inl h
  | function g =>
    change f ∈ (s.hoist g).functions at h
    rcases hoist_cases s g with hs | ⟨n, -, hg, hs⟩
    · rw [hs] at h
      exact .inl h
    · rw [hs] at h
      rcases List.mem_append.mp h with h | h
      · exact .inl (List.mem_filter.mp h).1
      · rw [List.mem_singleton.mp h]
        exact .inr ⟨rfl, hg⟩
  | _ => exact .inl h

theorem hasKind_declareStatements {s : Scope} {n : String} {k : DeclarationKind}
    (h : s.hasKind n k) (ts : List Stmt) : (s.declareStatements ts).hasKind n k := by
  induction ts generalizing s with
  | nil => exact h
  | cons t ts ih => exact ih (hasKind_declareStatement h t)

theorem hasKind_parameter_declareStatements {s : Scope} {n : String} {ts : List Stmt}
    (h : (s.declareStatements ts).hasKind n .parameter) : s.hasKind n .parameter := by
  induction ts generalizing s with
  | nil => exact h
  | cons t ts ih => exact hasKind_parameter_declareStatement (ih h)

theorem IsSettled.declareStatements {s : Scope} (h : s.IsSettled) (ts : List Stmt) :
    (s.declareStatements ts).IsSettled := by
  induction ts generalizing s with
  | nil => exact h
  | cons t ts ih => exact ih (h.declareStatement t)

/-- **Functions that are instantiated are among the statements, and have a body.** -/
theorem mem_functions {s : Scope} {ts : List Stmt} {f : Function}
    (h : f ∈ (s.declareStatements ts).functions) :
    f ∈ s.functions ∨ .function f ∈ ts ∧ f.isBodiless = false := by
  induction ts generalizing s with
  | nil => exact .inl h
  | cons t ts ih =>
    rcases ih h with h | ⟨hf, hbody⟩
    · rcases mem_functions_declareStatement h with h | ⟨rfl, hbody⟩
      · exact .inl h
      · exact .inr ⟨List.mem_cons_self, hbody⟩
    · exact .inr ⟨List.mem_cons_of_mem _ hf, hbody⟩

/-- **Names that statements declare for their list are declared in the scope of the list.** -/
theorem hasKind_lexical {s : Scope} {ts : List Stmt} {t : Stmt} (ht : t ∈ ts) {n : String}
    (hn : n ∈ t.lexicalNames) :
    (s.declareStatements ts).hasKind n .let ∨ (s.declareStatements ts).hasKind n .const := by
  induction ts generalizing s with
  | nil => cases ht
  | cons u ts ih =>
    rcases List.mem_cons.mp ht with rfl | ht
    · have hhead : (s.declareStatement t).hasKind n .let
          ∨ (s.declareStatement t).hasKind n .const := by
        cases t with
        | declaration d =>
          unfold Stmt.lexicalNames at hn
          unfold declareStatement
          dsimp only at hn ⊢
          split at hn
          · rename_i hd
            rw [if_pos hd, hasKind_declareAll, hasKind_declareAll]
            unfold VarDecl.declarationKind
            split
            · exact .inr (.inr ⟨hn, rfl⟩)
            · exact .inl (.inr ⟨hn, rfl⟩)
          · cases hn
        | _ => cases hn
      exact hhead.imp (hasKind_declareStatements · ts) (hasKind_declareStatements · ts)
    · exact ih ht

/-! ### The scopes of blocks, switches and functions -/

theorem isSettled_ofStatements (ts : List Stmt) : (ofStatements ts).IsSettled :=
  (isSettled_empty _).declareStatements ts

/-- The statements of all clauses are in one scope. -/
theorem ofCases_eq (cases : List Case) :
    ofCases cases = ofStatements (cases.flatMap (·.statements)) := by
  unfold ofCases ofStatements
  generalize empty .block = s
  induction cases generalizing s with
  | nil => rfl
  | cons c cases ih =>
    rw [List.foldl_cons, ih, List.flatMap_cons]
    unfold declareStatements
    rw [List.foldl_append]

theorem isSettled_ofFunction (f : Function) : (ofFunction f).IsSettled :=
  (((isSettled_empty _).declareAll _ _).declareAll _ _).declareStatements _

/-- The parameters of a function. -/
theorem hasKind_parameter_ofFunction (f : Function) (n : String) :
    (ofFunction f).hasKind n .parameter ↔ n ∈ f.parameterNames := by
  have hempty : ¬(empty (.function f.hasParameterExpressions)).hasKind n .parameter := by
    rintro ⟨d, hd, -⟩
    cases hd
  unfold ofFunction
  constructor
  · intro h
    have h := hasKind_parameter_declareStatements h
    rw [hasKind_declareAll, hasKind_declareAll] at h
    rcases h with (h | ⟨hn, -⟩) | ⟨-, hk⟩
    · exact absurd h hempty
    · exact hn
    · cases hk
  · intro hn
    refine hasKind_declareStatements ?_ _
    rw [hasKind_declareAll, hasKind_declareAll]
    exact .inl (.inr ⟨hn, rfl⟩)

/-- The functions that a function instantiates are statements of its body. -/
theorem mem_functions_ofFunction {f g : Function} (h : g ∈ (ofFunction f).functions) :
    .function g ∈ f.body.statements ∧ g.isBodiless = false := by
  rcases mem_functions h with h | h
  · rw [functions_declareAll, functions_declareAll] at h
    cases h
  · exact h

/-- The functions that a block instantiates are statements of it. -/
theorem mem_functions_ofStatements {ts : List Stmt} {g : Function}
    (h : g ∈ (ofStatements ts).functions) : .function g ∈ ts ∧ g.isBodiless = false := by
  rcases mem_functions h with h | h
  · cases h
  · exact h

end Scope

end Scriptlet
