import Mathlib.Data.List.Nodup
import Scriptlet.Proofs.Scopes

/-!
# Names that are declared once

A list of statements declares some names without a value to start with; their declarations give them
one when they are reached.  That happens once for each name if no name is declared twice.  The
analysis does not ask for this: a scope lists a name with the ways in which it is declared, and two
declarations in the same way leave no trace in it.

## Main definitions

* `lexicalNames`, `functionNames` — what statements declare for their list.
* `Stmt.declaresOnce`, `Function.declaresOnce` — no name is declared twice for the same list.

## Main results

* `Scope.nodup_ofStatements`, `Scope.nodup_ofFunction` — a scope lists a name once.
* `Scope.hasNamedFunctions_ofStatements` — the functions of a block.
* `Scope.kinds_ofFunction` — **what a scope declares is declared by the syntax in the same way**.
-/

namespace Scriptlet

/-- The names that statements declare for their list without a value to start with. -/
def lexicalNames (ss : List Stmt) : List String := ss.flatMap Stmt.lexicalNames

/-- The names of the functions that statements instantiate for their list. -/
def functionNames (ss : List Stmt) : List String :=
  ss.filterMap fun
    | .function f => if f.isBodiless then none else f.name
    | _ => none

/-- No name is declared without value twice, or by a function besides. -/
def namesOnce (ss : List Stmt) : Bool :=
  decide (lexicalNames ss).Nodup && (lexicalNames ss).all fun n => !(functionNames ss).contains n

/-- The statement declares no names for a list, as it does not belong to one. -/
def Stmt.isLone (s : Stmt) : Bool := s.lexicalNames.isEmpty

/-- The variables are declared once, if they belong to a loop. -/
def VarDecl.declaresOnce (d : VarDecl) : Bool := !d.kind.isLexical || decide d.names.Nodup

/-- The variables of a counting loop are declared once. -/
def LoopInit.declaresOnce : LoopInit → Bool
  | .declaration d => d.declaresOnce
  | .none | .expression _ => true

/-- The variables of a loop over a collection are declared once. -/
def LoopHead.declaresOnce : LoopHead → Bool
  | .declaration d => d.declaresOnce
  | .target _ => true

mutual

/-- No name is declared twice for the same list of statements, loop or handler in the statement;
functions in it do not count. -/
def Stmt.declaresOnce : Stmt → Bool
  | .block b => blockDeclaresOnce b
  | .conditional _ _ consequent none => consequent.isLone && consequent.declaresOnce
  | .conditional _ _ consequent (some alternate) =>
    consequent.isLone && consequent.declaresOnce && (alternate.isLone && alternate.declaresOnce)
  | .while _ _ body => body.isLone && body.declaresOnce
  | .doWhile _ body _ => body.isLone && body.declaresOnce
  | .for _ init _ _ body => init.declaresOnce && (body.isLone && body.declaresOnce)
  | .forIn _ head _ body => head.declaresOnce && (body.isLone && body.declaresOnce)
  | .forOf _ _ head _ body => head.declaresOnce && (body.isLone && body.declaresOnce)
  | .switch _ _ cases =>
    namesOnce (cases.flatMap (·.statements)) && casesDeclareOnce cases
  | .try _ b handler finalizer =>
    blockDeclaresOnce b && handlerDeclaresOnce handler && optionalDeclaresOnce finalizer
  | _ => true

/-- No name is declared twice in the statements. -/
def statementsDeclareOnce : List Stmt → Bool
  | [] => true
  | s :: rest => s.declaresOnce && statementsDeclareOnce rest

/-- No name is declared twice for the block or in it. -/
def blockDeclaresOnce : Block → Bool
  | ⟨_, statements⟩ => namesOnce statements && statementsDeclareOnce statements

/-- No name is declared twice in the statements of the clauses. -/
def casesDeclareOnce : List Case → Bool
  | [] => true
  | ⟨_, statements⟩ :: rest => statementsDeclareOnce statements && casesDeclareOnce rest

/-- No name is declared twice for the handler or in it. -/
def handlerDeclaresOnce : Option Handler → Bool
  | none => true
  | some ⟨_, parameter, body⟩ => decide (restNames parameter).Nodup && blockDeclaresOnce body

/-- No name is declared twice for the block, if there is one, or in it. -/
def optionalDeclaresOnce : Option Block → Bool
  | none => true
  | some b => blockDeclaresOnce b

end

namespace Function

/-- No name is declared twice for the function or in it; functions in it do not count. -/
def declaresOnce (f : Function) : Bool :=
  decide f.parameterNames.Nodup
    && (lexicalNames f.body.statements).all
      (fun n => !f.parameterNames.contains n && !f.varNames.contains n)
    && (namesOnce f.body.statements && statementsDeclareOnce f.body.statements)

end Function

theorem namesOnce_iff {ss : List Stmt} : namesOnce ss = true ↔
    (lexicalNames ss).Nodup ∧ ∀ n ∈ lexicalNames ss, n ∉ functionNames ss := by
  simp [namesOnce]

theorem Function.declaresOnce_iff {f : Function} : f.declaresOnce = true ↔
    f.parameterNames.Nodup
      ∧ (∀ n ∈ lexicalNames f.body.statements, n ∉ f.parameterNames ∧ n ∉ f.varNames)
      ∧ namesOnce f.body.statements = true
      ∧ statementsDeclareOnce f.body.statements = true := by
  simp [Function.declaresOnce, and_assoc]

theorem blockDeclaresOnce_iff {b : Block} : blockDeclaresOnce b = true ↔
    namesOnce b.statements = true ∧ statementsDeclareOnce b.statements = true := by
  obtain ⟨span, ss⟩ := b
  rw [blockDeclaresOnce, Bool.and_eq_true]

theorem VarDecl.nodup_names {d : VarDecl} (hd : d.kind.isLexical = true)
    (h : d.declaresOnce = true) : d.names.Nodup := by
  unfold VarDecl.declaresOnce at h
  rw [hd] at h
  exact of_decide_eq_true h

theorem LoopHead.nodup_names {head : LoopHead} {d : VarDecl} (hd : head.lexical? = some d)
    (h : head.declaresOnce = true) : d.names.Nodup := by
  cases head with
  | target t => cases hd
  | declaration d' =>
    unfold LoopHead.lexical? at hd
    dsimp only at hd
    split at hd
    · next hkind =>
      cases hd
      exact VarDecl.nodup_names hkind h
    · cases hd

theorem Stmt.isLone_iff {s : Stmt} : s.isLone = true ↔ s.lexicalNames = [] := List.isEmpty_iff

/-! ### Scopes -/

namespace Scope

/-- The declared names, in the order of their first declaration. -/
def names (s : Scope) : List String := s.declarations.map (·.name)

theorem nodup_empty (kind : ScopeKind) : (empty kind).names.Nodup := List.nodup_nil

theorem names_declare (s : Scope) (n : String) (k : DeclarationKind) :
    (s.declare n k).names = if s.has n then s.names else s.names ++ [n] := by
  unfold declare names
  split
  · rw [List.map_map]
    refine List.map_congr_left fun d _ => ?_
    dsimp only [Function.comp_apply]
    split
    · exact d.name_adding k
    · rfl
  · simp

theorem nodup_declare {s : Scope} (h : s.names.Nodup) (n : String) (k : DeclarationKind) :
    (s.declare n k).names.Nodup := by
  rw [names_declare]
  split
  · exact h
  · next hn =>
    refine List.nodup_append.mpr ⟨h, by simp, fun a ha b hb => ?_⟩
    rw [List.mem_singleton.mp hb]
    rintro rfl
    obtain ⟨d, hd, hda⟩ := List.mem_map.mp ha
    exact hn (has_iff.mpr ⟨d, hd, hda⟩)

theorem nodup_declareAll {s : Scope} (h : s.names.Nodup) (ns : List String)
    (k : DeclarationKind) : (s.declareAll ns k).names.Nodup := by
  induction ns generalizing s with
  | nil => exact h
  | cons n ns ih => exact ih (nodup_declare h n k)

theorem nodup_declareStatements {s : Scope} (h : s.names.Nodup) (ts : List Stmt) :
    (s.declareStatements ts).names.Nodup := by
  induction ts generalizing s with
  | nil => exact h
  | cons t ts ih =>
    refine ih ?_
    cases t with
    | declaration d =>
      unfold declareStatement
      dsimp only
      split
      · exact nodup_declareAll h _ _
      · exact h
    | function f =>
      rcases hoist_cases s f with hs | ⟨n, -, -, hs⟩
      · exact (congrArg (fun t => t.names.Nodup) hs).mpr h
      · exact (congrArg (fun t => t.names.Nodup) hs).mpr (nodup_declare h n .function)
    | _ => exact h

/-- The scope of a block lists a name once. -/
theorem nodup_ofStatements (ts : List Stmt) : (ofStatements ts).names.Nodup :=
  nodup_declareStatements (nodup_empty _) ts

/-- The scope of a function lists a name once. -/
theorem nodup_ofFunction (f : Function) : (ofFunction f).names.Nodup :=
  nodup_declareStatements (nodup_declareAll (nodup_declareAll (nodup_empty _) _ _) _ _) _

/-- A declared name has one declaration. -/
theorem isKind_of_hasKind {s : Scope} {d : Declaration} {k : DeclarationKind} (h : s.names.Nodup)
    (hd : d ∈ s.declarations) (hk : s.hasKind d.name k) : d.isKind k = true := by
  obtain ⟨c, hc, hname, hk⟩ := hk
  rwa [List.inj_on_of_nodup_map h hc hd hname] at hk

/-- The functions that are instantiated have names, each its own. -/
structure HasNamedFunctions (s : Scope) (ns : List String) : Prop where
  named : ∀ f ∈ s.functions, ∃ n ∈ ns, f.name = some n
  nodup : (s.functions.map (·.name)).Nodup

theorem hasNamedFunctions_empty (kind : ScopeKind) : (empty kind).HasNamedFunctions [] :=
  ⟨fun _ hf => (List.not_mem_nil hf).elim, List.nodup_nil⟩

theorem HasNamedFunctions.nodup_names {s : Scope} {ns : List String}
    (h : s.HasNamedFunctions ns) : (s.functions.map fun f => f.name.getD "").Nodup := by
  have heq : s.functions.map (fun f => f.name.getD "")
      = (s.functions.map (·.name)).map (·.getD "") := by rw [List.map_map]; rfl
  rw [heq]
  refine List.Nodup.map_on (fun x hx y hy hxy => ?_) h.nodup
  obtain ⟨f, hf, rfl⟩ := List.mem_map.mp hx
  obtain ⟨g, hg, rfl⟩ := List.mem_map.mp hy
  obtain ⟨n, -, hn⟩ := h.named f hf
  obtain ⟨k, -, hk⟩ := h.named g hg
  rw [hn, hk] at hxy ⊢
  exact congrArg some hxy

theorem HasNamedFunctions.mem_of_mem_names {s : Scope} {ns : List String} {n : String}
    (h : s.HasNamedFunctions ns) (hn : n ∈ s.functions.map fun f => f.name.getD "") : n ∈ ns := by
  obtain ⟨f, hf, rfl⟩ := List.mem_map.mp hn
  obtain ⟨k, hk, hfk⟩ := h.named f hf
  rwa [hfk]

theorem HasNamedFunctions.mono {s : Scope} {ns ms : List String} (h : s.HasNamedFunctions ns)
    (hns : ns ⊆ ms) : s.HasNamedFunctions ms :=
  ⟨fun f hf => (h.named f hf).imp fun _ hn => ⟨hns hn.1, hn.2⟩, h.nodup⟩

theorem HasNamedFunctions.declareStatement {s : Scope} {ns : List String}
    (h : s.HasNamedFunctions ns) (t : Stmt) :
    (s.declareStatement t).HasNamedFunctions (ns ++ functionNames [t]) := by
  have hmono := h.mono (List.subset_append_left ns (functionNames [t]))
  cases t with
  | declaration d =>
    unfold Scope.declareStatement
    dsimp only
    split
    · exact ⟨by rw [functions_declareAll]; exact hmono.named,
        by rw [functions_declareAll]; exact hmono.nodup⟩
    · exact hmono
  | function f =>
    change (s.hoist f).HasNamedFunctions _
    -- A function takes the place of those with its name, so no two have the same one.
    rcases hoist_cases s f with hs | ⟨n, hn, hbody, hs⟩
    · rw [hs]
      exact hmono
    · rw [hs]
      refine ⟨fun g hg => ?_, ?_⟩
      · rcases List.mem_append.mp hg with hg | hg
        · exact hmono.named g (List.mem_filter.mp hg).1
        · rw [List.mem_singleton.mp hg]
          refine ⟨n, List.mem_append_right _ ?_, hn⟩
          simp [functionNames, hbody, hn]
      · rw [List.map_append]
        refine List.nodup_append.mpr ⟨?_, by simp, fun x hx y hy => ?_⟩
        · exact h.nodup.sublist (List.filter_sublist.map _)
        · obtain ⟨g, hg, rfl⟩ := List.mem_map.mp hx
          rw [List.map_singleton, List.mem_singleton] at hy
          rw [hy, hn]
          simpa using (List.mem_filter.mp hg).2
  | _ => exact hmono

theorem HasNamedFunctions.declareStatements {s : Scope} {ns : List String}
    (h : s.HasNamedFunctions ns) (ts : List Stmt) :
    (s.declareStatements ts).HasNamedFunctions (ns ++ functionNames ts) := by
  induction ts generalizing s ns with
  | nil => exact h.mono (List.subset_append_left ..)
  | cons t ts ih =>
    have hf : functionNames (t :: ts) = functionNames [t] ++ functionNames ts :=
      List.filterMap_append (l := [t])
    rw [hf, ← List.append_assoc]
    exact ih (h.declareStatement t)

/-- The functions that a block instantiates have names, each its own. -/
theorem hasNamedFunctions_ofStatements (ts : List Stmt) :
    (ofStatements ts).HasNamedFunctions (functionNames ts) :=
  (hasNamedFunctions_empty .block).declareStatements ts

/-- The functions that a function instantiates have names, each its own. -/
theorem hasNamedFunctions_ofFunction (f : Function) :
    (ofFunction f).HasNamedFunctions (functionNames f.body.statements) := by
  refine @HasNamedFunctions.declareStatements _ [] ⟨?_, ?_⟩ _
  all_goals rw [functions_declareAll, functions_declareAll]
  · exact fun _ hf => (List.not_mem_nil hf).elim
  · exact List.nodup_nil

/-- What a scope declares after a statement it has declared before, or the statement declares. -/
theorem kinds_declareStatement {s : Scope} {n : String} {k : DeclarationKind} {t : Stmt}
    (h : (s.declareStatement t).hasKind n k) :
    s.hasKind n k ∨ (k = .let ∨ k = .const) ∧ n ∈ t.lexicalNames
      ∨ k = .function ∧ n ∈ functionNames [t] := by
  cases t with
  | declaration d =>
    unfold declareStatement at h
    unfold Stmt.lexicalNames
    dsimp only at h ⊢
    split at h
    · next hd =>
      rcases (hasKind_declareAll ..).mp h with h | ⟨hn, rfl⟩
      · exact .inl h
      · refine .inr (.inl ⟨?_, by rwa [if_pos hd]⟩)
        unfold VarDecl.declarationKind
        split
        · exact .inr rfl
        · exact .inl rfl
    · exact .inl h
  | function f =>
    rcases hoist_cases s f with hs | ⟨m, hm, hbody, hs⟩
    · exact .inl ((congrArg (hasKind · n k) hs).mp h)
    · rcases (hasKind_declare ..).mp ((congrArg (hasKind · n k) hs).mp h) with h | ⟨rfl, rfl⟩
      · exact .inl h
      · refine .inr (.inr ⟨rfl, ?_⟩)
        simp [functionNames, hbody, hm]
  | _ => exact .inl h

/-- **What a scope declares after statements it has declared before, or they declare.** -/
theorem kinds_declareStatements {s : Scope} {n : String} {k : DeclarationKind} {ts : List Stmt}
    (h : (s.declareStatements ts).hasKind n k) :
    s.hasKind n k ∨ (k = .let ∨ k = .const) ∧ n ∈ lexicalNames ts
      ∨ k = .function ∧ n ∈ functionNames ts := by
  induction ts generalizing s with
  | nil => exact .inl h
  | cons t ts ih =>
    have hl : lexicalNames (t :: ts) = t.lexicalNames ++ lexicalNames ts := List.flatMap_cons
    have hf : functionNames (t :: ts) = functionNames [t] ++ functionNames ts :=
      List.filterMap_append (l := [t])
    rw [hl, hf, List.mem_append, List.mem_append]
    rcases ih h with h | ⟨hk, hn⟩ | ⟨hk, hn⟩
    · rcases kinds_declareStatement h with h | ⟨hk, hn⟩ | ⟨hk, hn⟩
      · exact .inl h
      · exact .inr (.inl ⟨hk, .inl hn⟩)
      · exact .inr (.inr ⟨hk, .inl hn⟩)
    · exact .inr (.inl ⟨hk, .inr hn⟩)
    · exact .inr (.inr ⟨hk, .inr hn⟩)

theorem not_hasKind_empty (kind : ScopeKind) (n : String) (k : DeclarationKind) :
    ¬(empty kind).hasKind n k := by
  rintro ⟨d, hd, -⟩
  cases hd

/-- What a function declares. -/
theorem kinds_ofFunction {n : String} {k : DeclarationKind} {f : Function}
    (h : (ofFunction f).hasKind n k) :
    k = .parameter ∧ n ∈ f.parameterNames ∨ k = .var ∧ n ∈ f.varNames
      ∨ (k = .let ∨ k = .const) ∧ n ∈ lexicalNames f.body.statements
      ∨ k = .function ∧ n ∈ functionNames f.body.statements := by
  rcases kinds_declareStatements h with h | h
  · rcases (hasKind_declareAll ..).mp h with h | ⟨hn, hk⟩
    · rcases (hasKind_declareAll ..).mp h with h | ⟨hn, hk⟩
      · exact absurd h (not_hasKind_empty _ n k)
      · exact .inl ⟨hk, hn⟩
    · exact .inr (.inl ⟨hk, hn⟩)
  · exact .inr (.inr h)

/-- A name that a statement of the body declares is not declared in other ways, if no name is declared
twice. -/
theorem isLexical_ofFunction {f : Function} (h : f.declaresOnce = true) {d : Declaration}
    (hd : d ∈ (ofFunction f).declarations) (hl : d.isLexical = true) {k : DeclarationKind}
    (hk : d.isKind k = true) : k = .let ∨ k = .const := by
  obtain ⟨-, hnames, honce, -⟩ := Function.declaresOnce_iff.mp h
  have hkinds : ∀ j, d.isKind j = true → _ := fun j hj =>
    kinds_ofFunction (n := d.name) (k := j) ⟨d, hd, rfl, hj⟩
  have hname : d.name ∈ lexicalNames f.body.statements := by
    rcases (Bool.or_eq_true ..).mp hl with hj | hj
    all_goals simpa using hkinds _ hj
  rcases hkinds k hk with ⟨-, hn⟩ | ⟨-, hn⟩ | ⟨hk, -⟩ | ⟨-, hn⟩
  · exact absurd hn (hnames _ hname).1
  · exact absurd hn (hnames _ hname).2
  · exact hk
  · exact absurd hn ((namesOnce_iff.mp honce).2 _ hname)

end Scope

end Scriptlet
