import Scriptlet.Proofs.DeclaredNames
import Scriptlet.Proofs.NameChanges

/-!
# The names of a body

When the names that belong to a whole function have been made, those that await their declarations are
made, and the declared functions are given to theirs.

## Main definitions

* `Function.DeclaresInBody` — the ways in which a body declares a name for itself.
* `Function.BodyStarts` — what the names of a body start with.

## Main results

* `bodyNames_ok` — **what making the names of a body leaves behind**.
-/

namespace Scriptlet

open Eval

variable {a b : Agent} {i : EnvironmentId}

/-! ### The names of a body -/

/-- The body of the function declares the name for itself in the given way, other than by var. -/
def Function.DeclaresInBody (f : Function) (n : String) (k : DeclarationKind) : Prop :=
  ∃ t ∈ f.body.statements, t.Declares n k

/-- **What the names of a body start with**: those of let and const await their declarations, those of
functions hold closures over the environment, of the last function of the name, and those of var alone
are undefined. -/
structure Function.BodyStarts (f : Function) (realm : RealmId) (i : EnvironmentId) (b : Agent) :
    Prop where
  lexical : ∀ n k, k = .let ∨ k = .const → f.DeclaresInBody n k → b.environments.Awaits i n
  functions : ∀ n, f.DeclaresInBody n .function → ∃ g object, g.IsLastOf n f.body.statements ∧
    b.environments.find? i n = some (.holding (.object object)) ∧
    (b.object object).kind = .closure ⟨g, i, realm, n⟩
  vars : ∀ n ∈ f.varNames, n ∉ f.parameterNames → ¬f.DeclaresInBody n .function →
    b.environments.find? i n = some (.holding .undefined)

section Body

variable {f : Function} {o : Context} {rest : List Context} {u : Unit}

/-- A name of a body is created when its scope has it. -/
theorem Function.DeclaresInBody.mem {n : String} {k : DeclarationKind} (h : f.DeclaresInBody n k) :
    ∃ d ∈ (Scope.ofFunction f).declarations, d.name = n ∧ d.isKind k = true :=
  (Scope.hasKind_ofFunction f).mpr (.inr (.inr h))

theorem isKind_iff {d : Declaration} (hd : d ∈ (Scope.ofFunction f).declarations)
    {k : DeclarationKind} : d.isKind k = true ↔ (Scope.ofFunction f).hasKind d.name k :=
  ⟨fun hk => ⟨d, hd, rfl, hk⟩, Scope.isKind_of_hasKind (Scope.nodup_ofFunction f) hd⟩

theorem isFunction_iff {d : Declaration} (hd : d ∈ (Scope.ofFunction f).declarations) :
    d.isKind .function = true ↔ f.DeclaresInBody d.name .function := by
  rw [isKind_iff hd, Scope.hasKind_ofFunction]
  simp [Function.DeclaresInBody]

theorem isParameter_iff {d : Declaration} (hd : d ∈ (Scope.ofFunction f).declarations) :
    d.isKind .parameter = true ↔ d.name ∈ f.parameterNames := by
  rw [isKind_iff hd, Scope.hasKind_parameter_ofFunction]

/-- Only declared names have a declaration. -/
theorem declared_of_mem {d : Declaration} (hd : d ∈ (Scope.ofFunction f).declarations) :
    d.name ∈ f.parameterNames ∨ d.name ∈ f.varNames ∨ ∃ k, f.DeclaresInBody d.name k := by
  obtain ⟨k, hk⟩ := (Scope.isSettled_ofFunction f).kinds d.name (Scope.has_iff.mpr ⟨d, hd, rfl⟩)
  rcases (Scope.hasKind_ofFunction f).mp hk with ⟨h, -⟩ | ⟨h, -⟩ | h
  · exact .inl h
  · exact .inr (.inl h)
  · exact .inr (.inr ⟨k, h⟩)

/-- What is declared in another way does not await its declaration. -/
theorem not_isLexical (hf : f.declaresOnce = true) {d : Declaration}
    (hd : d ∈ (Scope.ofFunction f).declarations) {k : DeclarationKind} (hk : d.isKind k = true)
    (hlet : k ≠ .let) (hconst : k ≠ .const) : d.isLexical = false := by
  refine Bool.eq_false_iff.mpr fun hl => ?_
  exact (Scope.isLexical_ofFunction hf hd hl hk).elim hlet hconst

/-- A name that is one of a parameter only is not made for the body. -/
theorem kinds_of_parameter {d : Declaration} (hd : d ∈ (Scope.ofFunction f).declarations)
    (h : ¬(d.name ∈ f.varNames ∨ ∃ k, f.DeclaresInBody d.name k)) :
    d.isFunctionWide = false ∧ d.isLexical = false ∧ d.isKind .function = false := by
  have hkinds : ∀ k, k ≠ .parameter → d.isKind k = false := fun k hk =>
    Bool.eq_false_iff.mpr fun hdk => by
      rcases (Scope.hasKind_ofFunction f).mp ((isKind_iff hd).mp hdk) with ⟨-, hp⟩ | ⟨hv, -⟩ | hb
      · exact hk hp
      · exact h (.inl hv)
      · exact h (.inr ⟨k, hb⟩)
  have hfunction := hkinds .function (by decide)
  refine ⟨?_, ?_, hfunction⟩
  · rw [Declaration.isFunctionWide, hkinds .var (by decide), hfunction]
    rfl
  · rw [Declaration.isLexical, hkinds .let (by decide), hkinds .const (by decide)]
    rfl

/-- The declared functions are given to their names, one after the other. -/
theorem assignFunctions_ok (hc : a.contexts = o :: rest)
    (hheld : ∀ g ∈ (Scope.ofFunction f).functions, ∃ value,
      a.environments.find? i (g.name.getD "") = some (.holding value))
    (h : (Scope.ofFunction f).functions.forM (assignFunction i) a = .ok u b) :
    a.Touches i ((Scope.ofFunction f).functions.map fun g => g.name.getD "") b ∧
      ∀ g ∈ (Scope.ofFunction f).functions, ∀ n, g.name = some n →
        ∃ object, b.environments.find? i n = some (.holding (.object object)) ∧
          (b.object object).kind = .closure ⟨g, i, o.realm, n⟩ := by
  have hnamed := Scope.hasNamedFunctions_ofFunction f
  -- While the functions are given to their names one by one, every name of a function holds
  -- something.
  obtain ⟨htouches, -, hall⟩ := forM_ok (I := fun a => a.contexts = o :: rest ∧
      ∀ g ∈ (Scope.ofFunction f).functions, ∃ value,
        a.environments.find? i (g.name.getD "") = some (.holding value))
    (Q := fun g _ b => ∃ object,
      b.environments.find? i (g.name.getD "") = some (.holding (.object object)) ∧
        (b.object object).kind = .closure ⟨g, i, o.realm, g.name.getD ""⟩)
    hnamed.nodup_names (fun g hg a u b hI hstep => by
      obtain ⟨hc, hheld⟩ := hI
      obtain ⟨n, -, hn⟩ := hnamed.named g hg
      obtain ⟨value, hvalue⟩ := hheld g hg
      rw [hn, Option.getD_some] at hvalue ⊢
      obtain ⟨htouches, object, hfind, hkind⟩ := assignFunction_ok hc hn hvalue rfl hstep
      refine ⟨htouches, ⟨htouches.contexts.trans hc, fun g' hg' => ?_⟩, object, hfind, hkind⟩
      -- The names of the others hold what they have held.
      by_cases hsame : g'.name.getD "" = n
      · exact ⟨.object object, by rw [hsame]; exact hfind⟩
      · obtain ⟨value', hvalue'⟩ := hheld g' hg'
        exact ⟨value', by rw [htouches.find _ (by simpa using hsame), hvalue']⟩)
    -- The names of later functions are other ones, and objects stay.
    (fun g _ b c ms hdone htouches hne => by
      obtain ⟨object, hfind, hkind⟩ := hdone
      exact ⟨object, (htouches.find _ hne).trans hfind, htouches.closures _ _ hkind⟩) ⟨hc, hheld⟩ h
  refine ⟨htouches, fun g hg n hn => ?_⟩
  have hdone := hall g hg
  rwa [hn, Option.getD_some] at hdone

/-- **The names of a body are made** in an environment that has those of the whole function. -/
theorem bodyNames_ok (hf : f.declaresOnce = true) (hc : a.contexts = o :: rest)
    (hwide : ∀ d ∈ (Scope.ofFunction f).declarations, d.isKind .function = true →
      ∃ value, a.environments.find? i d.name = some (.holding value))
    (h : (do
      (Scope.ofFunction f).declarations.forM (createLexical i)
      (Scope.ofFunction f).functions.forM (assignFunction i) : Eval Unit) a = .ok u b) :
    a.Touches i (Scope.ofFunction f).names b ∧
      (∀ d ∈ (Scope.ofFunction f).declarations, d.isLexical = true → b.environments.Awaits i d.name) ∧
      (∀ d ∈ (Scope.ofFunction f).declarations, d.isLexical = false → d.isKind .function = false →
        b.environments.find? i d.name = a.environments.find? i d.name) ∧
      ∀ g ∈ (Scope.ofFunction f).functions, ∀ n, g.name = some n →
        ∃ object, b.environments.find? i n = some (.holding (.object object)) ∧
          (b.object object).kind = .closure ⟨g, i, o.realm, n⟩ := by
  obtain ⟨u', m, hm, hrest⟩ := bind_eq_ok h
  -- Lexical names are created without a value first.
  obtain ⟨htouches, hcm, hlexical⟩ := forM_ok_of_eq (I := fun a => a.contexts = o :: rest)
    (G := fun d v => if d.isKind .const then some (.constant true)
      else if d.isKind .let then some .changing else v) (Scope.nodup_ofFunction f) (fun d hd a u b hc hstep => by
      obtain ⟨htouches, hfind⟩ := createLexical_ok hstep
      exact ⟨htouches, htouches.contexts.trans hc, hfind⟩) hc hm
  -- The functions have names that are declared as such, and so are not created here.
  have hkey : ∀ g ∈ (Scope.ofFunction f).functions, ∃ d ∈ (Scope.ofFunction f).declarations,
      d.name = g.name.getD "" ∧ d.isKind .function = true := by
    intro g hg
    obtain ⟨n, -, hn⟩ := (Scope.hasNamedFunctions_ofFunction f).named g hg
    rw [hn, Option.getD_some]
    exact (Scope.isSettled_ofFunction f).functions g hg n hn
  have hplain : ∀ d ∈ (Scope.ofFunction f).declarations, d.isLexical = false →
      m.environments.find? i d.name = a.environments.find? i d.name := by
    intro d hd hl
    rw [Declaration.isLexical, Bool.or_eq_false_iff] at hl
    rw [hlexical d hd, hl.1, hl.2]
    rfl
  have hnot : ∀ d ∈ (Scope.ofFunction f).declarations, d.isKind .function = true →
      d.isLexical = false := fun d hd hk => not_isLexical hf hd hk (by decide) (by decide)
  obtain ⟨htouches', hfunctions⟩ := assignFunctions_ok hcm (fun g hg => by
    obtain ⟨d, hd, hname, hk⟩ := hkey g hg
    rw [← hname, hplain d hd (hnot d hd hk)]
    exact hwide d hd hk) hrest
  -- Giving functions to their names leaves all other names as they are.
  have hstay : ∀ d ∈ (Scope.ofFunction f).declarations, d.isKind .function = false →
      b.environments.find? i d.name = m.environments.find? i d.name := by
    intro d hd hk
    refine htouches'.find _ fun hmem => ?_
    obtain ⟨g, hg, hname⟩ := List.mem_map.mp hmem
    obtain ⟨d', hd', hname', hk'⟩ := hkey g hg
    rw [isKind_iff hd', hname', hname, ← isKind_iff hd, hk] at hk'
    cases hk'
  refine ⟨htouches.trans (htouches'.mono fun n hn => ?_), fun d hd hl => ?_, fun d hd hl hk => ?_,
    hfunctions⟩
  · obtain ⟨g, hg, rfl⟩ := List.mem_map.mp hn
    obtain ⟨d, hd, hname, -⟩ := hkey g hg
    exact hname ▸ List.mem_map_of_mem hd
  · have hk : d.isKind .function = false := Bool.eq_false_iff.mpr fun hk => by
      rw [hnot d hd hk] at hl
      cases hl
    unfold Environments.Awaits
    rw [hstay d hd hk, hlexical d hd]
    unfold Declaration.isLexical at hl
    cases hconst : d.isKind .const with
    | true => exact ⟨_, rfl, rfl⟩
    | false =>
      rw [hconst, Bool.or_false] at hl
      rw [hl]
      exact ⟨_, rfl, rfl⟩
  · rw [hstay d hd hk, hplain d hd hl]

/-- What the names of a body start with, if those that are wide hold what they should. -/
theorem bodyStarts_of (hf : f.declaresOnce = true) {realm : RealmId}
    (hlexical : ∀ d ∈ (Scope.ofFunction f).declarations, d.isLexical = true →
      b.environments.Awaits i d.name)
    (hfunctions : ∀ g ∈ (Scope.ofFunction f).functions, ∀ n, g.name = some n →
      ∃ object, b.environments.find? i n = some (.holding (.object object)) ∧
        (b.object object).kind = .closure ⟨g, i, realm, n⟩)
    (hvars : ∀ d ∈ (Scope.ofFunction f).declarations, d.isKind .var = true →
      d.isKind .parameter = false → d.isKind .function = false → d.isLexical = false →
      b.environments.find? i d.name = some (.holding .undefined)) : f.BodyStarts realm i b where
  lexical := by
    intro n k hk hn
    obtain ⟨d, hd, rfl, hdk⟩ := hn.mem
    refine hlexical d hd ?_
    -- There is no declaration beside a lexical one, so the name holds nothing yet.
    unfold Declaration.isLexical
    rcases hk with rfl | rfl <;> simp [hdk]
  functions := by
    intro n hn
    obtain ⟨g, hg, hname⟩ := Scope.exists_mem_functions ((Scope.hasKind_ofFunction f).mpr (.inr (.inr hn)))
    -- Of several functions with one name only the last one is instantiated.
    obtain ⟨object, hfind, hkind⟩ := hfunctions g hg n hname
    exact ⟨g, object, Scope.isLastOf_of_mem hg hname, hfind, hkind⟩
  vars := by
    intro n hn hparameter hfunction
    obtain ⟨d, hd, rfl, hk⟩ := (Scope.hasKind_ofFunction (k := .var) f).mpr (.inr (.inl ⟨hn, rfl⟩))
    refine hvars d hd hk (Bool.eq_false_iff.mpr fun h => hparameter ((isParameter_iff hd).mp h))
      (Bool.eq_false_iff.mpr fun h => hfunction ((isFunction_iff hd).mp h))
      (not_isLexical hf hd hk (by decide) (by decide))

end Body

end Scriptlet
