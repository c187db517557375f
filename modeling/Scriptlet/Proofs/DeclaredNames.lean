import Scriptlet.Proofs.DistinctNames

/-!
# What a function declares

The scope of a function is made statement by statement.  Here it is described by the syntax alone: in
which ways a name is declared, and which function of a name is the last one.

## Main definitions

* `Stmt.Declares` — a statement declares a name for its list.
* `Function.IsLastOf` — the last function of a name.

## Main results

* `Scope.hasKind_ofFunction` — **the ways in which a function declares a name**.
* `Scope.isLastOf_of_mem`, `Scope.exists_mem_functions` — the functions that are instantiated are the
  last ones of their names.
-/

namespace Scriptlet

/-- The statement declares the name for its list in the given way. -/
def Stmt.Declares (n : String) (k : DeclarationKind) : Stmt → Prop
  | .declaration d => d.kind.isLexical = true ∧ n ∈ d.names ∧ k = d.declarationKind
  | .function g => g.isBodiless = false ∧ g.name = some n ∧ k = .function
  | _ => False

/-- The function has the name, and is the last one of the statements that has it. -/
def Function.IsLastOf (g : Function) (n : String) (ts : List Stmt) : Prop :=
  g.name = some n ∧ ∃ before after, ts = before ++ .function g :: after ∧
    ∀ t ∈ after, ¬t.Declares n .function

namespace Scope

variable {n : String} {k : DeclarationKind}

/-- What has no name or no body is not instantiated. -/
theorem hoist_idle (s : Scope) {f : Function} (h : ∀ n, ¬(Stmt.function f).Declares n .function) :
    s.hoist f = s := by
  rcases hoist_cases s f with heq | ⟨m, hm, hbody, -⟩
  · exact heq
  · exact absurd ⟨hbody, hm, rfl⟩ (h m)

theorem hoist_named (s : Scope) {f : Function} {m : String} (hm : f.name = some m)
    (hbody : f.isBodiless = false) : s.hoist f = { s.declare m .function with
      functions := s.functions.filter (fun g => g.name != some m) ++ [f] } := by
  unfold hoist
  rw [hm]
  dsimp only
  rw [functions_declare]
  exact if_neg (by unfold Function.isBodiless at hbody; rw [hbody]; exact Bool.false_ne_true)

/-- Whether a function is instantiated. -/
theorem hoist_split (s : Scope) (f : Function) :
    (∀ n, ¬(Stmt.function f).Declares n .function) ∧ s.hoist f = s ∨
      ∃ m, f.name = some m ∧ f.isBodiless = false ∧ s.hoist f = { s.declare m .function with
        functions := s.functions.filter (fun g => g.name != some m) ++ [f] } := by
  by_cases h : ∀ n, ¬(Stmt.function f).Declares n .function
  · exact .inl ⟨h, s.hoist_idle h⟩
  · obtain ⟨m, hm⟩ := not_forall.mp h
    obtain ⟨hbody, hname, -⟩ := not_not.mp hm
    exact .inr ⟨m, hname, hbody, s.hoist_named hname hbody⟩

theorem hasKind_declareStatement_iff (s : Scope) (t : Stmt) :
    (s.declareStatement t).hasKind n k ↔ s.hasKind n k ∨ t.Declares n k := by
  cases t with
  | declaration d =>
    unfold declareStatement Stmt.Declares
    dsimp only
    split
    · next h => rw [hasKind_declareAll, h]; simp
    · next h => simp [h]
  | function f =>
    change (s.hoist f).hasKind n k ↔ _
    rcases hoist_split s f with ⟨hidle, heq⟩ | ⟨m, hm, hbody, heq⟩
    · rw [heq]
      refine ⟨.inl, fun h => h.resolve_right fun hd => ?_⟩
      obtain ⟨-, -, rfl⟩ := id hd
      exact hidle n hd
    · rw [heq, hasKind_withFunctions, hasKind_declare, Stmt.Declares, hm, hbody]
      simp [eq_comm]
  | _ => simp [declareStatement, Stmt.Declares]

theorem hasKind_declareStatements_iff (s : Scope) (ts : List Stmt) :
    (s.declareStatements ts).hasKind n k ↔ s.hasKind n k ∨ ∃ t ∈ ts, t.Declares n k := by
  induction ts generalizing s with
  | nil => simp [declareStatements]
  | cons t ts ih =>
    have hrest : (s.declareStatements (t :: ts)) = (s.declareStatement t).declareStatements ts := rfl
    rw [hrest, ih, hasKind_declareStatement_iff]
    simp only [List.mem_cons, exists_eq_or_imp, or_assoc]

/-- **The ways in which a function declares a name.** -/
theorem hasKind_ofFunction (f : Function) : (ofFunction f).hasKind n k ↔
    n ∈ f.parameterNames ∧ k = .parameter ∨ n ∈ f.varNames ∧ k = .var ∨
      ∃ t ∈ f.body.statements, t.Declares n k := by
  have hempty : ¬(empty (.function f.hasParameterExpressions)).hasKind n k := by
    rintro ⟨d, hd, -⟩
    cases hd
  unfold ofFunction
  rw [hasKind_declareStatements_iff, hasKind_declareAll, hasKind_declareAll]
  tauto

/-! ### Functions -/

theorem mem_functions_of_declareStatement {s : Scope} {t : Stmt} {g : Function}
    (h : g ∈ (s.declareStatement t).functions) (hg : g.name = some n) :
    g ∈ s.functions ∧ ¬t.Declares n .function ∨ t = .function g := by
  cases t with
  -- A variable is never declared as a function.
  | declaration d =>
    refine .inl ⟨?_, fun ⟨_, _, hk⟩ => ?_⟩
    · unfold declareStatement at h
      dsimp only at h
      split at h
      · rwa [functions_declareAll] at h
      · exact h
    · unfold VarDecl.declarationKind at hk
      split at hk <;> cases hk
  | function f =>
    change g ∈ (s.hoist f).functions at h
    rcases hoist_split s f with ⟨hidle, heq⟩ | ⟨m, hm, hbody, heq⟩
    · rw [heq] at h
      exact .inl ⟨h, hidle n⟩
    -- A function takes the place of those of the same name before it.
    · rw [heq, List.mem_append, List.mem_singleton, List.mem_filter] at h
      rcases h with ⟨h, hne⟩ | rfl
      · refine .inl ⟨h, fun ⟨_, hn, _⟩ => ?_⟩
        cases hm.symm.trans hn
        rw [hg] at hne
        simp at hne
      · exact .inr rfl
  | _ => exact .inl ⟨h, id⟩

/-- A function that is instantiated is the last one of its name. -/
theorem mem_functions_cases {s : Scope} {ts : List Stmt} {g : Function}
    (h : g ∈ (s.declareStatements ts).functions) (hg : g.name = some n) :
    g ∈ s.functions ∧ (∀ t ∈ ts, ¬t.Declares n .function) ∨ g.IsLastOf n ts := by
  induction ts generalizing s with
  | nil => exact .inl ⟨h, nofun⟩
  | cons t ts ih =>
    rcases ih h with ⟨h, hts⟩ | ⟨-, before, after, rfl, hlast⟩
    · rcases mem_functions_of_declareStatement h hg with ⟨h, ht⟩ | rfl
      · exact .inl ⟨h, List.forall_mem_cons.mpr ⟨ht, hts⟩⟩
      · exact .inr ⟨hg, [], ts, rfl, hts⟩
    · exact .inr ⟨hg, t :: before, after, rfl, hlast⟩

theorem isLastOf_of_mem {f g : Function} (h : g ∈ (ofFunction f).functions) (hg : g.name = some n) :
    g.IsLastOf n f.body.statements := by
  rcases mem_functions_cases h hg with ⟨h, -⟩ | h
  · rw [functions_declareAll, functions_declareAll] at h
    cases h
  · exact h

/-- Each name that is declared as one of a function has a function. -/
def IsServed (s : Scope) : Prop := ∀ n, s.hasKind n .function → ∃ g ∈ s.functions, g.name = some n

theorem IsServed.declareAll {s : Scope} (h : s.IsServed) (ns : List String) (hk : k ≠ .function) :
    (s.declareAll ns k).IsServed := by
  intro n hn
  rw [hasKind_declareAll] at hn
  rw [functions_declareAll]
  rcases hn with hn | ⟨-, rfl⟩
  · exact h n hn
  · exact absurd rfl hk

theorem IsServed.declareStatement {s : Scope} (h : s.IsServed) (t : Stmt) :
    (s.declareStatement t).IsServed := by
  cases t with
  | declaration d =>
    unfold Scope.declareStatement
    dsimp only
    split
    · refine h.declareAll _ ?_
      unfold VarDecl.declarationKind
      split <;> decide
    · exact h
  | function f =>
    change (s.hoist f).IsServed
    rcases hoist_cases s f with heq | ⟨m, hm, -, heq⟩
    · rwa [heq]
    · rw [heq]
      intro n hn
      -- The name of the function is served by it, and other names are served as before.
      rw [hasKind_withFunctions, hasKind_declare] at hn
      by_cases hnm : n = m
      · subst hnm
        exact ⟨f, List.mem_append_right _ (List.mem_singleton.mpr rfl), hm⟩
      · obtain ⟨g, hg, hname⟩ := h n (hn.resolve_right fun h => hnm h.1)
        refine ⟨g, List.mem_append_left _ (List.mem_filter.mpr ⟨hg, ?_⟩), hname⟩
        rw [hname]
        simpa using hnm
  | _ => exact h

theorem exists_mem_functions {f : Function} (h : (ofFunction f).hasKind n .function) :
    ∃ g ∈ (ofFunction f).functions, g.name = some n := by
  have hempty : (empty (.function f.hasParameterExpressions)).IsServed := by
    rintro n ⟨d, hd, -⟩
    cases hd
  have hwide := (hempty.declareAll f.parameterNames (k := .parameter) (by decide)).declareAll f.varNames
    (k := .var) (by decide)
  have hall : ∀ (ts : List Stmt) (s : Scope), s.IsServed → (s.declareStatements ts).IsServed := by
    intro ts
    induction ts with
    | nil => exact fun _ hs => hs
    | cons t ts ih => exact fun s hs => ih _ (hs.declareStatement t)
  exact hall _ _ hwide n h

end Scope

end Scriptlet
