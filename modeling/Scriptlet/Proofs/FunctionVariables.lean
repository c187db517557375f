import Scriptlet.Proofs.DeclaredNames
import Scriptlet.Proofs.InertTypes

/-!
# Variables that belong to functions

If variables have to belong to blocks, the analysis finds a fault wherever it comes to a declaration of
others.  The names that a function declares are collected from its statements by themselves, though, and
on this way also from statements that the analysis passes over with a warning: a labelled one, or a loop
that waits for its values.  These are the only ones from which an accepted root can have a variable that
belongs to a function.

## Main definitions

* `Stmt.IsPassed` — the statements that the analysis passes over, though names are collected from them.
* `Stmt.passed` — those inside a statement.
* `Accounts`, `Note.Locates` — notes that say where the variables of functions come from.

## Main results

* `Stmt.accounts` — **a statement without faults declares what is passed over**, and nothing else, for
  its function.
* `Expr.locates`, `functionLocates` — so it is in all functions of a tree.
* `noVar_scopes` — **the variables that belong to functions** of an accepted root.
* `noVar_labelled` — one that is declared in a labelled statement.
-/

namespace Scriptlet

/-! ### Statements that are passed over -/

/-- The analysis passes over the statement, and notes the fault. -/
inductive Stmt.IsPassed : Stmt → Fault → Prop
  | labelled (place : Span) (body : Stmt) :
    IsPassed (.labelled place body) (.unsupportedNode "LabeledStatement" place)
  | awaiting (place : Span) (head : LoopHead) (subject : Expr) (body : Stmt) :
    IsPassed (.forOf place true head subject body) (.unsupportedNode "ForOfStatement" place)

mutual

/-- The statements inside a statement that the analysis passes over. -/
def Stmt.passed : Stmt → List Stmt
  | .block b => blockPassed b
  | .conditional _ _ consequent none => consequent.passed
  | .conditional _ _ consequent (some alternate) => consequent.passed ++ alternate.passed
  | .while _ _ body => body.passed
  | .doWhile _ body _ => body.passed
  | .for _ _ _ _ body => body.passed
  | .forIn _ _ _ body => body.passed
  | .forOf place isAwait head subject body =>
    if isAwait then [.forOf place isAwait head subject body] else body.passed
  | .labelled place body => [.labelled place body]
  | .switch _ _ cases => casesPassed cases
  | .try _ b handler finalizer => blockPassed b ++ handlerPassed handler ++ optionalPassed finalizer
  | _ => []

/-- The statements inside statements that the analysis passes over. -/
def statementsPassed : List Stmt → List Stmt
  | [] => []
  | s :: rest => s.passed ++ statementsPassed rest

/-- The statements inside a block that the analysis passes over. -/
def blockPassed : Block → List Stmt
  | ⟨_, statements⟩ => statementsPassed statements

/-- The statements inside the clauses of a switch that the analysis passes over. -/
def casesPassed : List Case → List Stmt
  | [] => []
  | ⟨_, statements⟩ :: rest => statementsPassed statements ++ casesPassed rest

/-- The statements inside a handler that the analysis passes over. -/
def handlerPassed : Option Handler → List Stmt
  | none => []
  | some ⟨_, _, body⟩ => blockPassed body

/-- The statements inside a block, if there is one, that the analysis passes over. -/
def optionalPassed : Option Block → List Stmt
  | none => []
  | some b => blockPassed b

end

/-- The statements in the body of a function that the analysis passes over. -/
def Function.passed (f : Function) : List Stmt := statementsPassed f.body.statements

mutual

/-- What a statement that is passed over declares is declared by the statement around it. -/
theorem Stmt.mem_varNames {u : Stmt} {n : String} (hn : n ∈ u.varNames) :
    (s : Stmt) → u ∈ s.passed → n ∈ s.varNames
  | .empty _, h | .expression _ _, h | .declaration _, h | .function _, h | .return _ _, h
  | .throw _ _, h | .break _ _, h | .continue _ _, h | .typeAlias _, h | .interface _, h
  | .foreign _ _, h => nomatch h
  | .block b, h => mem_blockVarNames hn b h
  | .conditional _ _ consequent none, h => Stmt.mem_varNames hn consequent h
  | .conditional _ _ consequent (some alternate), h =>
    List.mem_append.mpr <| (List.mem_append.mp h).imp (Stmt.mem_varNames hn consequent)
      (Stmt.mem_varNames hn alternate)
  | .while _ _ body, h => Stmt.mem_varNames hn body h
  | .doWhile _ body _, h => Stmt.mem_varNames hn body h
  | .for _ .none _ _ body, h => Stmt.mem_varNames hn body h
  | .for _ (.expression _) _ _ body, h => Stmt.mem_varNames hn body h
  | .for _ (.declaration _) _ _ body, h => List.mem_append_right _ (Stmt.mem_varNames hn body h)
  | .forIn _ (.declaration _) _ body, h => List.mem_append_right _ (Stmt.mem_varNames hn body h)
  | .forIn _ (.target _) _ body, h => Stmt.mem_varNames hn body h
  | .forOf _ true _ _ _, h => List.mem_singleton.mp h ▸ hn
  | .forOf _ false (.declaration _) _ body, h => List.mem_append_right _ (Stmt.mem_varNames hn body h)
  | .forOf _ false (.target _) _ body, h => Stmt.mem_varNames hn body h
  | .labelled _ _, h => List.mem_singleton.mp h ▸ hn
  | .switch _ _ cases, h => mem_casesVarNames hn cases h
  | .try _ b handler finalizer, h =>
    List.mem_append.mpr <| (List.mem_append.mp h).imp
      (fun h => List.mem_append.mpr <| (List.mem_append.mp h).imp (mem_blockVarNames hn b)
        (mem_handlerVarNames hn handler))
      (mem_optionalVarNames hn finalizer)

theorem mem_statementsVarNames {u : Stmt} {n : String} (hn : n ∈ u.varNames) :
    (ss : List Stmt) → u ∈ statementsPassed ss → n ∈ statementsVarNames ss
  | [], h => nomatch h
  | s :: rest, h =>
    List.mem_append.mpr <| (List.mem_append.mp h).imp (Stmt.mem_varNames hn s)
      (mem_statementsVarNames hn rest)

theorem mem_blockVarNames {u : Stmt} {n : String} (hn : n ∈ u.varNames) :
    (b : Block) → u ∈ blockPassed b → n ∈ blockVarNames b
  | ⟨_, statements⟩, h => mem_statementsVarNames hn statements h

theorem mem_casesVarNames {u : Stmt} {n : String} (hn : n ∈ u.varNames) :
    (cs : List Case) → u ∈ casesPassed cs → n ∈ casesVarNames cs
  | [], h => nomatch h
  | ⟨_, statements⟩ :: rest, h =>
    List.mem_append.mpr <| (List.mem_append.mp h).imp (mem_statementsVarNames hn statements)
      (mem_casesVarNames hn rest)

theorem mem_handlerVarNames {u : Stmt} {n : String} (hn : n ∈ u.varNames) :
    (h : Option Handler) → u ∈ handlerPassed h → n ∈ handlerVarNames h
  | none, h => nomatch h
  | some ⟨_, _, body⟩, h => mem_blockVarNames hn body h

theorem mem_optionalVarNames {u : Stmt} {n : String} (hn : n ∈ u.varNames) :
    (b : Option Block) → u ∈ optionalPassed b → n ∈ optionalVarNames b
  | none, h => nomatch h
  | some b, h => mem_blockVarNames hn b h

end

/-! ### Names and faults -/

/-- No variable that belongs to a function is noted as a fault. -/
def Note.AvoidVar (ns : List Note) : Prop := ∀ place, .fault (.functionVariable place) ∉ ns

theorem Note.AvoidVar.mono {ns ms : List Note} (h : AvoidVar ms) (hns : ns ⊆ ms) : AvoidVar ns :=
  fun place hfault => h place (hns hfault)

/-- The name is declared in one of the statements, which is passed over with a warning in the notes. -/
def PassedIn (us : List Stmt) (ns : List Note) (n : String) : Prop :=
  ∃ u ∈ us, n ∈ u.varNames ∧ ∃ w, u.IsPassed w ∧ .warning w ∈ ns

theorem PassedIn.mono {us us' : List Stmt} {ns ms : List Note} {n : String} (h : PassedIn us ns n)
    (hus : us ⊆ us') (hns : ns ⊆ ms) : PassedIn us' ms n := by
  obtain ⟨u, hu, hname, w, hw, hnoted⟩ := h
  exact ⟨u, hus hu, hname, w, hw, hns hnoted⟩

/-- If there are no faults in the notes, all names are declared in what is passed over. -/
def Accounts (us : List Stmt) (ns : List Note) (names : List String) : Prop :=
  Note.AvoidVar ns → ∀ n ∈ names, PassedIn us ns n

namespace Accounts

variable {us us' : List Stmt} {ns ms : List Note} {names names' : List String}

theorem nil (us : List Stmt) (ns : List Note) : Accounts us ns [] := fun _ _ h => nomatch h

/-- More notes say no less. -/
theorem mono (h : Accounts us ns names) (hns : ns ⊆ ms) : Accounts us ms names :=
  fun hfault n hn => (h (hfault.mono hns) n hn).mono (List.Subset.refl us) hns

theorem before (h : Accounts us ns names) (ms : List Note) : Accounts us (ns ++ ms) names :=
  h.mono (List.subset_append_left ns ms)

theorem behind (h : Accounts us ns names) (ms : List Note) : Accounts us (ms ++ ns) names :=
  h.mono (List.subset_append_right ms ns)

theorem cons (h : Accounts us ns names) (m : Note) : Accounts us (m :: ns) names :=
  h.mono (List.subset_cons_self m ns)

theorem append (h : Accounts us ns names) (h' : Accounts us' ms names') :
    Accounts (us ++ us') (ns ++ ms) (names ++ names') := by
  intro hfault n hn
  rcases List.mem_append.mp hn with hn | hn
  · exact (h.before ms hfault n hn).mono (List.subset_append_left us us') (List.Subset.refl _)
  · exact (h'.behind ns hfault n hn).mono (List.subset_append_right us us') (List.Subset.refl _)

/-- Nothing need account for names that belong to a block. -/
theorem of_isLexical {d : VarDecl} (h : d.kind.isLexical = true) (us : List Stmt) (ns : List Note) :
    Accounts us ns d.varNames := by
  rw [VarDecl.varNames, if_pos h]
  exact nil us ns

/-- A statement that is passed over accounts for its names. -/
theorem of_isPassed {u : Stmt} {w : Fault} (h : u.IsPassed w) :
    Accounts [u] [.warning w] u.varNames :=
  fun _ _ hn => ⟨u, List.mem_singleton.mpr rfl, hn, w, h, List.mem_singleton.mpr rfl⟩

end Accounts

section Statements

variable {c : Surroundings}

/-- A declaration without faults declares nothing for the function. -/
theorem declarationAccounts (hc : c.rules.noVar = true) (d : VarDecl) :
    Accounts [] (declarationNotes c d) d.varNames := by
  obtain ⟨span, kind, isAmbient, bindings⟩ := d
  cases kind with
  | var =>
    intro hfault
    refine absurd (List.mem_append_left _ ?_) (hfault span)
    rw [VarDecl.kindNotes, hc]
    exact List.mem_singleton.mpr rfl
  | _ => exact .of_isLexical rfl _ _

/-- The names that the head of a loop declares for the function. -/
def LoopHead.varNames : LoopHead → List String
  | .declaration d => d.varNames
  | .target _ => []

theorem headAccounts (hc : c.rules.noVar = true) (head : LoopHead) :
    Accounts [] (headNotes c head) head.varNames := by
  cases head with
  | declaration d => exact declarationAccounts hc d
  | target t => exact .nil _ _

/-- A loop over a collection accounts for the names of its head and of its body. -/
theorem eachAccounts {us : List Stmt} {names : List String} {subject body : Surroundings → List Note}
    (hc : c.rules.noVar = true) (place : Span) (head : LoopHead)
    (h : ∀ c : Surroundings, c.rules.noVar = true → Accounts us (body c) names) :
    Accounts us (eachNotes c place head subject (headNotes · head) body)
      (head.varNames ++ names) := by
  have hparts : ∀ c : Surroundings, c.rules.noVar = true →
      Accounts us (subject c ++ headNotes c head ++ body c) (head.varNames ++ names) :=
    fun c hc => ((headAccounts hc head).behind _).append (h c hc)
  unfold eachNotes
  split
  · next d _ => exact (hparts (c.inside (Scope.ofHead d)) hc).cons _
  · exact hparts c hc

end Statements

mutual

/-- **A statement without faults declares for its function what is passed over.** -/
theorem Stmt.accounts {c : Surroundings} (hc : c.rules.noVar = true) :
    (s : Stmt) → Accounts s.passed (s.notes c) s.varNames
  | .empty _ | .expression _ _ | .function _ | .return _ _ | .throw _ _ | .break _ _
  | .continue _ _ | .typeAlias _ | .interface _ | .foreign _ _ => .nil _ _
  | .declaration d => by
    -- Other declarations declare nothing for the function, whether they are passed over or not.
    obtain ⟨span, kind, isAmbient, bindings⟩ := d
    cases kind with
    | var => exact declarationAccounts hc _
    | _ => exact .of_isLexical rfl _ _
  | .block b => blockAccounts hc b
  | .conditional _ _ consequent none => ((consequent.accounts hc).cons _).behind _
  | .conditional _ _ consequent (some alternate) =>
    (((consequent.accounts hc).cons _).behind _).append ((alternate.accounts hc).cons _)
  | .while _ _ body => ((body.accounts hc).cons _).behind _
  | .doWhile _ body _ => ((body.accounts hc).cons _).before _
  | .for _ .none _ _ body => ((body.accounts hc).cons _).behind _
  | .for _ (.expression _) _ _ body => ((body.accounts hc).cons _).behind _
  | .for _ (.declaration d) _ _ body => by
    have hparts : ∀ (c : Surroundings) (ns ms : List Note), c.rules.noVar = true →
        Accounts body.passed (declarationNotes c d ++ ns ++ ms ++ alone body (body.notes c))
          (d.varNames ++ body.varNames) := fun c ns ms hc =>
      (((declarationAccounts hc d).before _).before _).append ((body.accounts hc).cons _)
    unfold Stmt.notes
    split
    · exact (hparts (c.inside (Scope.ofHead d)) _ _ hc).cons _
    · exact hparts c _ _ hc
  | .forIn place head subject body => by
    have h : Accounts body.passed ((Stmt.forIn place head subject body).notes c)
        (head.varNames ++ body.varNames) :=
      eachAccounts hc place head fun c hc => (body.accounts hc).cons _
    cases head <;> exact h
  | .forOf place isAwait head subject body => by
    cases isAwait with
    | true => exact .of_isPassed (.awaiting place head subject body)
    | false =>
      have h : Accounts body.passed ((Stmt.forOf place false head subject body).notes c)
          (head.varNames ++ body.varNames) := by
        rw [Stmt.notes, if_neg Bool.false_ne_true]
        exact eachAccounts hc place head fun c hc => (body.accounts hc).cons _
      cases head <;> exact h
  | .labelled place body => .of_isPassed (.labelled place body)
  | .switch _ _ cases =>
    ((casesAccounts (c := c.inside (Scope.ofCases cases)) hc cases).cons _).behind _
  | .try _ b handler finalizer =>
    ((blockAccounts hc b).append (handlerAccounts hc handler)).append
      (optionalBlockAccounts hc finalizer)

theorem statementsAccounts {c : Surroundings} (hc : c.rules.noVar = true) :
    (ss : List Stmt) → Accounts (statementsPassed ss) (statementNotes c ss) (statementsVarNames ss)
  | [] => .nil _ _
  | s :: rest => (s.accounts hc).append (statementsAccounts hc rest)

theorem blockAccounts {c : Surroundings} (hc : c.rules.noVar = true) :
    (b : Block) → Accounts (blockPassed b) (blockNotes c b) (blockVarNames b)
  | ⟨_, statements⟩ =>
    (statementsAccounts (c := c.inside (Scope.ofStatements statements)) hc statements).cons _

theorem casesAccounts {c : Surroundings} (hc : c.rules.noVar = true) :
    (cs : List Case) → Accounts (casesPassed cs) (caseNotes c cs) (casesVarNames cs)
  | [] => .nil _ _
  | ⟨_, statements⟩ :: rest =>
    ((statementsAccounts hc statements).behind _).append (casesAccounts hc rest)

theorem handlerAccounts {c : Surroundings} (hc : c.rules.noVar = true) :
    (h : Option Handler) → Accounts (handlerPassed h) (handlerNotes c h) (handlerVarNames h)
  | none => .nil _ _
  | some ⟨_, parameter, body⟩ =>
    ((blockAccounts (c := c.inside (Scope.ofHandler parameter)) hc body).behind _).cons _

theorem optionalBlockAccounts {c : Surroundings} (hc : c.rules.noVar = true) :
    (b : Option Block) → Accounts (optionalPassed b) (optionalBlockNotes c b) (optionalVarNames b)
  | none => .nil _ _
  | some b => blockAccounts hc b

end

/-! ### Scopes -/

namespace Scope

variable {n : String}

/-- Blocks have no variables that belong to functions. -/
theorem not_hasVar_declareStatements {s : Scope} (h : ¬s.hasKind n .var) (ts : List Stmt) :
    ¬(s.declareStatements ts).hasKind n .var := by
  intro hvar
  rcases kinds_declareStatements hvar with hvar | ⟨hkind | hkind, -⟩ | ⟨hkind, -⟩
  · exact h hvar
  all_goals cases hkind

theorem not_hasVar_declareAll {s : Scope} (h : ¬s.hasKind n .var) (ns : List String)
    {k : DeclarationKind} (hk : k ≠ .var) : ¬(s.declareAll ns k).hasKind n .var := by
  rw [hasKind_declareAll]
  rintro (hvar | ⟨-, hkind⟩)
  · exact h hvar
  · exact hk hkind.symm

theorem not_hasVar_ofStatements (ts : List Stmt) : ¬(ofStatements ts).hasKind n .var :=
  not_hasVar_declareStatements (not_hasKind_empty _ n _) ts

theorem not_hasVar_ofCases (cs : List Case) : ¬(ofCases cs).hasKind n .var := by
  rw [ofCases_eq]
  exact not_hasVar_ofStatements _

theorem not_hasVar_ofHead (d : VarDecl) : ¬(ofHead d).hasKind n .var := by
  refine not_hasVar_declareAll (not_hasKind_empty _ n _) _ ?_
  unfold VarDecl.declarationKind
  split <;> decide

theorem not_hasVar_ofHandler (p : Option Pattern) : ¬(ofHandler p).hasKind n .var :=
  not_hasVar_declareAll (not_hasKind_empty _ n _) _ (by decide)

/-- The variables that belong to a function are those that its body declares for it. -/
theorem hasVar_ofFunction (f : Function) : (ofFunction f).hasKind n .var ↔ n ∈ f.varNames := by
  constructor
  · intro h
    rcases kinds_ofFunction h with ⟨hkind, -⟩ | ⟨-, hn⟩ | ⟨hkind | hkind, -⟩ | ⟨hkind, -⟩
    case inr.inl => exact hn
    all_goals cases hkind
  · exact fun hn => (hasKind_ofFunction f).mpr (.inr (.inl ⟨hn, rfl⟩))

end Scope

/-- The scope that is noted, if it is that of syntax. -/
def Note.scope? : Note → Option Scope
  | .scope _ s => some s
  | _ => none

/-- If a scope is noted that has variables of a function, it is that of a function that declares them in
what is passed over. -/
def Note.IsLocated (ns : List Note) (x : Note) : Prop :=
  ∀ s, x.scope? = some s → ∀ n, s.hasKind n .var →
    ∃ f, s = Scope.ofFunction f ∧ PassedIn f.passed ns n

/-- If there are no faults in the notes, all variables that belong to functions are located. -/
def Note.Locates (ns : List Note) : Prop := Note.AvoidVar ns → ∀ x ∈ ns, x.IsLocated ns

namespace Note

variable {x : Note} {ns ms : List Note}

theorem IsLocated.mono (h : x.IsLocated ns) (hns : ns ⊆ ms) : x.IsLocated ms := by
  intro s hs n hn
  obtain ⟨f, hf, hpassed⟩ := h s hs n hn
  exact ⟨f, hf, hpassed.mono (List.Subset.refl _) hns⟩

theorem isLocated_of_not_hasVar (hx : ∀ s, x.scope? = some s → ∀ n, ¬s.hasKind n .var)
    (ns : List Note) : x.IsLocated ns := fun s hs n hn => absurd hn (hx s hs n)

namespace Locates

theorem nil : Locates [] := fun _ _ h => nomatch h

theorem append (h : Locates ns) (h' : Locates ms) : Locates (ns ++ ms) := by
  intro hfault x hx
  have hns := List.subset_append_left ns ms
  have hms := List.subset_append_right ns ms
  rcases List.mem_append.mp hx with hx | hx
  · exact (h (hfault.mono hns) x hx).mono hns
  · exact (h' (hfault.mono hms) x hx).mono hms

theorem cons_of (h : Locates ns) (hx : AvoidVar (x :: ns) → x.IsLocated (x :: ns)) :
    Locates (x :: ns) := by
  intro hfault y hy
  have hns := List.subset_cons_self x ns
  rcases List.mem_cons.mp hy with rfl | hy
  · exact hx hfault
  · exact (h (hfault.mono hns) y hy).mono hns

/-- A note on a scope of a block, or on something else. -/
theorem cons (h : Locates ns) (hx : ∀ s, x.scope? = some s → ∀ n, ¬s.hasKind n .var) :
    Locates (x :: ns) := h.cons_of fun _ => isLocated_of_not_hasVar hx _

theorem alone (h : Locates ns) (s : Stmt) : Locates (alone s ns) := h.cons nofun

theorem single (hx : ∀ s, x.scope? = some s → ∀ n, ¬s.hasKind n .var) : Locates [x] := nil.cons hx

/-- A note on the scope of a block. -/
theorem inBlock (h : Locates ns) {s : Scope} (hs : ∀ n, ¬s.hasKind n .var) (place : Span) :
    Locates (.scope place s :: ns) :=
  h.cons fun _ heq => Option.some_inj.mp heq ▸ hs

/-- A note on the scope of a function. -/
theorem inFunction (h : Locates ns) {f : Function} (hf : Accounts f.passed ns f.varNames)
    (place : Span) : Locates (.scope place (Scope.ofFunction f) :: ns) := by
  refine h.cons_of fun hfault => ?_
  rintro s ⟨⟩ n hn
  exact ⟨f, rfl, (hf.cons _) hfault n ((Scope.hasVar_ofFunction f).mp hn)⟩

/-- Faults are no scopes. -/
theorem of_faults (h : ∀ x ∈ ns, ∃ f, x = .fault f) : Locates ns := by
  intro _ x hx
  obtain ⟨f, rfl⟩ := h x hx
  exact isLocated_of_not_hasVar (x := .fault f) nofun ns

theorem kindNotes (r : Rules) (f : Function) : Locates (f.kindNotes r) :=
  of_faults fun _ => Function.fault_of_kindNotes

theorem varKindNotes (r : Rules) (d : VarDecl) : Locates (d.kindNotes r) := by
  unfold VarDecl.kindNotes
  split
  · exact single nofun
  · exact nil

end Locates

end Note

open Note.Locates

/-- The notes on a loop over a collection locate what its parts locate. -/
theorem eachLocates {c : Surroundings} {subject headed body : Surroundings → List Note}
    (hc : c.rules.noVar = true) (place : Span) (head : LoopHead)
    (h : ∀ c : Surroundings, c.rules.noVar = true →
      Note.Locates (subject c ++ headed c ++ body c)) :
    Note.Locates (eachNotes c place head subject headed body) := by
  unfold eachNotes
  split
  · next d _ =>
    exact (h (c.inside (Scope.ofHead d)) hc).inBlock (fun _ => Scope.not_hasVar_ofHead d) place
  · exact h c hc

theorem Surroundings.rules_insideName (c : Surroundings) (f : Function) :
    (c.insideName f).rules = c.rules := by
  unfold insideName
  split <;> rfl

/-- The body of a function accounts for the variables of the function. -/
theorem bodyAccounts {c : Surroundings} (hc : c.rules.noVar = true) (f : Function) :
    Accounts f.passed (bodyNotes c f.body) f.varNames := by
  unfold Function.passed Function.varNames
  cases f.body with
  | absent => exact .nil _ _
  | concise e => exact .nil _ _
  | block place statements => exact statementsAccounts hc statements

mutual

/-- **The variables that belong to the functions in an expression** are declared in what is passed
over. -/
theorem Expr.locates {c : Surroundings} (hc : c.rules.noVar = true) :
    (e : Expr) → Note.Locates (e.notes c)
  | .constant _ _ => nil
  | .identifier _ _ => single nofun
  | .template t => templateLocates hc t
  | .tagged _ tag t => (tag.locates hc).append (templateLocates hc t)
  | .array _ elements => elementLocates hc elements
  | .object _ properties => propertyLocates hc properties
  | .function f => by
    unfold Expr.notes
    split
    · exact single nofun
    · exact (functionLocates hc f).cons nofun
  | .unary _ _ operand => operand.locates hc
  | .update _ _ _ target => by
    unfold Expr.notes
    split
    · exact single nofun
    · exact target.locates hc
  | .binary _ _ left right => (left.locates hc).append (right.locates hc)
  | .logical _ _ left right => (left.locates hc).append (right.locates hc)
  | .conditional _ test consequent alternate =>
    ((test.locates hc).append (consequent.locates hc)).append (alternate.locates hc)
  | .assign _ _ target value => by
    unfold Expr.notes
    split
    · exact single nofun
    · exact (target.locates hc).append (value.locates hc)
  | .sequence _ items => expressionLocates hc items
  | .call _ callee args _ => (callee.locates hc).append (argumentLocates hc args)
  | .construct _ callee args => (callee.locates hc).append (argumentLocates hc args)
  | .member _ object _ _ => object.locates hc
  | .index _ object key _ => (object.locates hc).append (key.locates hc)
  | .privateMember _ _ _ _ => single nofun
  | .chain _ link => by
    -- A chain with a private member is warned about as a whole; any other is analysed link by link.
    have hlink := link.locates hc
    cases link with
    | privateMember => exact single nofun
    | _ => exact hlink
  | .wrapped _ _ content => content.locates hc
  | .foreign _ _ => single nofun

theorem expressionLocates {c : Surroundings} (hc : c.rules.noVar = true) :
    (es : List Expr) → Note.Locates (expressionNotes c es)
  | [] => nil
  | e :: rest => (e.locates hc).append (expressionLocates hc rest)

theorem templateLocates {c : Surroundings} (hc : c.rules.noVar = true) :
    (t : Template) → Note.Locates (templateNotes c t)
  | ⟨_, _, expressions⟩ => expressionLocates hc expressions

theorem elementLocates {c : Surroundings} (hc : c.rules.noVar = true) :
    (es : List Element) → Note.Locates (elementNotes c es)
  | [] => nil
  | .hole :: rest => elementLocates hc rest
  | .item e :: rest => (e.locates hc).append (elementLocates hc rest)
  | .spread e :: rest => (e.locates hc).append (elementLocates hc rest)

theorem argumentLocates {c : Surroundings} (hc : c.rules.noVar = true) :
    (as : List Argument) → Note.Locates (argumentNotes c as)
  | [] => nil
  | .item e :: rest => (e.locates hc).append (argumentLocates hc rest)
  | .spread e :: rest => (e.locates hc).append (argumentLocates hc rest)

theorem nameLocates {c : Surroundings} (hc : c.rules.noVar = true) :
    (n : PropertyName) → Note.Locates (nameNotes c n)
  | .computed e => e.locates hc
  | .fixed _ | .bigInt _ => nil

theorem propertyLocates {c : Surroundings} (hc : c.rules.noVar = true) :
    (ps : List Property) → Note.Locates (propertyNotes c ps)
  | [] => nil
  | .data name value :: rest =>
    ((nameLocates hc name).append (value.locates hc)).append (propertyLocates hc rest)
  | .shorthand _ _ _ :: rest => (propertyLocates hc rest).cons nofun
  | .accessor _ _ :: rest => (propertyLocates hc rest).cons nofun
  | .spread e :: rest => (e.locates hc).append (propertyLocates hc rest)

theorem Target.locates {c : Surroundings} (hc : c.rules.noVar = true) :
    (t : Target) → Note.Locates (t.notes c)
  | .identifier _ _ => single nofun
  | .member _ object _ => object.locates hc
  | .index _ object key => (object.locates hc).append (key.locates hc)
  | .privateMember _ _ => single nofun
  | .wrapped _ content => content.locates hc
  | .array elements rest => (targetElementLocates hc elements).append (optionalTargetLocates hc rest)
  | .object properties rest =>
    (targetPropertyLocates hc properties).append (optionalTargetLocates hc rest)

theorem optionalTargetLocates {c : Surroundings} (hc : c.rules.noVar = true) :
    (t : Option Target) → Note.Locates (optionalTargetNotes c t)
  | none => nil
  | some t => t.locates hc

theorem partLocates {c : Surroundings} (hc : c.rules.noVar = true) :
    (e : TargetElement) → Note.Locates (partNotes c e)
  | ⟨target, initializer⟩ => (target.locates hc).append (optionalLocates hc initializer)

theorem targetElementLocates {c : Surroundings} (hc : c.rules.noVar = true) :
    (es : List (Option TargetElement)) → Note.Locates (targetElementNotes c es)
  | [] => nil
  | none :: rest => targetElementLocates hc rest
  | some e :: rest => (partLocates hc e).append (targetElementLocates hc rest)

theorem targetPropertyLocates {c : Surroundings} (hc : c.rules.noVar = true) :
    (ps : List TargetProperty) → Note.Locates (targetPropertyNotes c ps)
  | [] => nil
  | .shorthand _ _ initializer :: rest =>
    ((optionalLocates hc initializer).append (targetPropertyLocates hc rest)).cons nofun
  | .named name e :: rest =>
    ((nameLocates hc name).append (partLocates hc e)).append (targetPropertyLocates hc rest)

theorem optionalLocates {c : Surroundings} (hc : c.rules.noVar = true) :
    (e : Option Expr) → Note.Locates (optionalNotes c e)
  | none => nil
  | some e => e.locates hc

theorem Pattern.locates {c : Surroundings} (hc : c.rules.noVar = true) :
    (p : Pattern) → Note.Locates (p.notes c)
  | .identifier _ => nil
  | .array elements rest =>
    (patternElementLocates hc elements).append (optionalPatternLocates hc rest)
  | .object properties rest =>
    (patternPropertyLocates hc properties).append (optionalPatternLocates hc rest)
  | .withDefault target initializer => (target.locates hc).append (initializer.locates hc)

theorem optionalPatternLocates {c : Surroundings} (hc : c.rules.noVar = true) :
    (p : Option Pattern) → Note.Locates (optionalPatternNotes c p)
  | none => nil
  | some p => p.locates hc

theorem patternElementLocates {c : Surroundings} (hc : c.rules.noVar = true) :
    (ps : List (Option Pattern)) → Note.Locates (patternElementNotes c ps)
  | [] => nil
  | none :: rest => patternElementLocates hc rest
  | some p :: rest => (p.locates hc).append (patternElementLocates hc rest)

theorem patternPropertyLocates {c : Surroundings} (hc : c.rules.noVar = true) :
    (ps : List PatternProperty) → Note.Locates (patternPropertyNotes c ps)
  | [] => nil
  | ⟨name, value⟩ :: rest =>
    ((nameLocates hc name).append (value.locates hc)).append (patternPropertyLocates hc rest)

theorem bindingLocates {c : Surroundings} (hc : c.rules.noVar = true) :
    (bs : List Binding) → Note.Locates (bindingNotes c bs)
  | [] => nil
  | ⟨pattern, initializer⟩ :: rest =>
    ((pattern.locates hc).append (optionalLocates hc initializer)).append (bindingLocates hc rest)

theorem bodyLocates {c : Surroundings} (hc : c.rules.noVar = true) :
    (b : Body) → Note.Locates (bodyNotes c b)
  | .absent => nil
  | .block _ statements => statementsLocates hc statements
  | .concise e => e.locates hc

theorem functionLocates {c : Surroundings} (hc : c.rules.noVar = true) :
    (f : Function) → Note.Locates (functionNotes c f)
  | ⟨span, form, name, isAsync, isGenerator, isAmbient, parameters, rest, body⟩ => by
    let f : Function := ⟨span, form, name, isAsync, isGenerator, isAmbient, parameters, rest, body⟩
    have hinside : ∀ s : Scope, ((c.insideName f).inside s).rules.noVar = true := fun s =>
      (congrArg Rules.noVar (c.rules_insideName f)).trans hc
    have hbody := bodyLocates (hinside (Scope.ofFunction f)) body
    -- The scope is noted in front of the body, which has the faults and warnings of its statements.
    unfold functionNotes
    refine (Note.Locates.kindNotes c.rules f).append ?_
    split
    · exact nil
    · refine ((bindingLocates (hinside (Scope.ofParameters f)) parameters).append
        (optionalPatternLocates (hinside (Scope.ofParameters f)) rest)).append ?_
      exact hbody.inFunction (bodyAccounts (hinside (Scope.ofFunction f)) f) span

theorem declarationLocates {c : Surroundings} (hc : c.rules.noVar = true) :
    (d : VarDecl) → Note.Locates (declarationNotes c d)
  | ⟨_, _, _, bindings⟩ => (varKindNotes c.rules _).append (bindingLocates hc bindings)

theorem Stmt.locates {c : Surroundings} (hc : c.rules.noVar = true) :
    (s : Stmt) → Note.Locates (s.notes c)
  | .empty _ => nil
  | .expression _ e => e.locates hc
  | .declaration d => by
    unfold Stmt.notes
    split
    · exact single nofun
    · exact declarationLocates hc d
  | .function f => (functionLocates hc f).cons nofun
  | .block b => blockLocates hc b
  | .conditional _ test consequent none =>
    (test.locates hc).append ((consequent.locates hc).alone consequent)
  | .conditional _ test consequent (some alternate) =>
    ((test.locates hc).append ((consequent.locates hc).alone consequent)).append
      ((alternate.locates hc).alone alternate)
  | .while _ test body => (test.locates hc).append ((body.locates hc).alone body)
  | .doWhile _ body test => ((body.locates hc).alone body).append (test.locates hc)
  | .for _ .none test update body =>
    ((optionalLocates hc test).append (optionalLocates hc update)).append
      ((body.locates hc).alone body)
  | .for _ (.expression e) test update body =>
    (((e.locates hc).append (optionalLocates hc test)).append (optionalLocates hc update)).append
      ((body.locates hc).alone body)
  | .for place (.declaration d) test update body => by
    -- The parts are analysed in the scope of the head where there is one, and around the loop
    -- otherwise.
    have hparts : ∀ c : Surroundings, c.rules.noVar = true → Note.Locates (declarationNotes c d
        ++ optionalNotes c test ++ optionalNotes c update ++ alone body (body.notes c)) := fun c hc =>
      (((declarationLocates hc d).append (optionalLocates hc test)).append
        (optionalLocates hc update)).append ((body.locates hc).alone body)
    unfold Stmt.notes
    split
    · exact (hparts (c.inside (Scope.ofHead d)) hc).inBlock (fun _ => Scope.not_hasVar_ofHead d) place
    · exact hparts c hc
  | .forIn place head subject body =>
    eachLocates hc place head fun c hc =>
      ((subject.locates hc).append (headLocates hc head)).append ((body.locates hc).alone body)
  | .forOf place isAwait head subject body => by
    unfold Stmt.notes
    split
    · exact single nofun
    · exact eachLocates hc place head fun c hc =>
        ((subject.locates hc).append (headLocates hc head)).append ((body.locates hc).alone body)
  | .switch place subject cases =>
    (subject.locates hc).append <|
      (caseLocates (c := c.inside (Scope.ofCases cases)) hc cases).inBlock
        (fun _ => Scope.not_hasVar_ofCases cases) place
  | .try _ block handler finalizer =>
    ((blockLocates hc block).append (handlerLocates hc handler)).append
      (optionalBlockLocates hc finalizer)
  | .return _ value => optionalLocates hc value
  | .throw _ value => value.locates hc
  | .break _ _ => by
    unfold Stmt.notes
    split
    · exact single nofun
    · exact nil
  | .continue _ _ => by
    unfold Stmt.notes
    split
    · exact single nofun
    · exact nil
  | .labelled _ _ => single nofun
  | .typeAlias _ | .interface _ => nil
  | .foreign _ _ => single nofun

theorem statementsLocates {c : Surroundings} (hc : c.rules.noVar = true) :
    (ss : List Stmt) → Note.Locates (statementNotes c ss)
  | [] => nil
  | s :: rest => (s.locates hc).append (statementsLocates hc rest)

theorem headLocates {c : Surroundings} (hc : c.rules.noVar = true) :
    (h : LoopHead) → Note.Locates (headNotes c h)
  | .declaration d => declarationLocates hc d
  | .target t => t.locates hc

theorem blockLocates {c : Surroundings} (hc : c.rules.noVar = true) :
    (b : Block) → Note.Locates (blockNotes c b)
  | ⟨place, statements⟩ =>
    (statementsLocates (c := c.inside (Scope.ofStatements statements)) hc statements).inBlock
      (fun _ => Scope.not_hasVar_ofStatements statements) place

theorem optionalBlockLocates {c : Surroundings} (hc : c.rules.noVar = true) :
    (b : Option Block) → Note.Locates (optionalBlockNotes c b)
  | none => nil
  | some b => blockLocates hc b

theorem caseLocates {c : Surroundings} (hc : c.rules.noVar = true) :
    (cs : List Case) → Note.Locates (caseNotes c cs)
  | [] => nil
  | ⟨test, statements⟩ :: rest =>
    ((optionalLocates hc test).append (statementsLocates hc statements)).append (caseLocates hc rest)

theorem handlerLocates {c : Surroundings} (hc : c.rules.noVar = true) :
    (h : Option Handler) → Note.Locates (handlerNotes c h)
  | none => nil
  | some ⟨place, parameter, body⟩ =>
    ((optionalPatternLocates (c := c.inside (Scope.ofHandler parameter)) hc parameter).append
      (blockLocates (c := c.inside (Scope.ofHandler parameter)) hc body)).inBlock
        (fun _ => Scope.not_hasVar_ofHandler parameter) place

end

/-! ### Accepted roots -/

section Roots

variable {r : Rules} {root : Root} {A : Analysis}

theorem scopes_of_analyze (h : analyze r root = .ok A) {s : Scope} (hs : s ∈ A.scopes) :
    ∃ x ∈ root.notes r, x.scope? = some s := by
  unfold analyze at h
  dsimp only at h
  split at h
  · cases h
  · cases h
    obtain ⟨x, hx, hscope⟩ := List.mem_filterMap.mp hs
    refine ⟨x, hx, ?_⟩
    cases x with
    | scope => exact hscope
    | _ => cases hscope

theorem mem_warnings_of_analyze (h : analyze r root = .ok A) {w : Fault}
    (hw : .warning w ∈ root.notes r) : w ∈ A.warnings := by
  unfold analyze at h
  dsimp only at h
  split at h
  · cases h
  · cases h
    exact List.mem_filterMap.mpr ⟨_, hw, rfl⟩

theorem root_of_analyze (h : analyze r root = .ok A) : A.root = root.scope := by
  unfold analyze at h
  dsimp only at h
  split at h
  · cases h
  · cases h
    rfl

theorem Root.locates (hr : r.noVar = true) (root : Root) : Note.Locates (root.notes r) := by
  cases root with
  | function f => exact functionLocates hr f
  | expression e => exact e.locates hr

/-- Only the name of a function is around a root. -/
theorem Root.not_hasVar_scope (root : Root) (n : String) : ¬root.scope.hasKind n .var := by
  have hempty := Scope.not_hasKind_empty .global n .var
  cases root with
  | expression e => exact hempty
  | function f =>
    rw [Root.scope]
    split
    · rw [Scope.hasKind_declare]
      exact fun h => h.elim hempty fun h => nomatch h.2
    · exact hempty

end Roots

/-- **The variables that belong to functions of an accepted root**, if variables have to belong to blocks:
there are none around the root, and in it a function has those that are declared in statements that the
analysis has passed over with a warning.  So there are none if there is no warning of a labelled
statement, or of a loop that waits for its values. -/
theorem noVar_scopes {r : Rules} {root : Root} {A : Analysis} (hr : r.noVar = true)
    (h : analyze r root = .ok A) :
    (∀ n, ¬A.root.hasKind n .var) ∧
    (∀ s ∈ A.scopes, ∀ n, s.hasKind n .var ↔ ∃ f, s = Scope.ofFunction f ∧
      ∃ u ∈ f.passed, n ∈ u.varNames ∧ ∃ w ∈ A.warnings, u.IsPassed w) ∧
    ((∀ place, .unsupportedNode "LabeledStatement" place ∉ A.warnings ∧
        .unsupportedNode "ForOfStatement" place ∉ A.warnings) →
      ∀ s ∈ A.scopes, ∀ n, ¬s.hasKind n .var) := by
  have hpassed : ∀ s ∈ A.scopes, ∀ n, s.hasKind n .var → ∃ f, s = Scope.ofFunction f ∧
      ∃ u ∈ f.passed, n ∈ u.varNames ∧ ∃ w ∈ A.warnings, u.IsPassed w := by
    intro s hs n hn
    obtain ⟨x, hx, hscope⟩ := scopes_of_analyze h hs
    obtain ⟨f, hf, u, hu, hname, w, hw, hnoted⟩ :=
      root.locates hr (fun _ => not_fault_of_analyze h _) x hx s hscope n hn
    exact ⟨f, hf, u, hu, hname, w, mem_warnings_of_analyze h hnoted, hw⟩
  refine ⟨fun n => ?_, fun s hs n => ⟨hpassed s hs n, ?_⟩, fun hwarnings s hs n hn => ?_⟩
  · rw [root_of_analyze h]
    exact root.not_hasVar_scope n
  · rintro ⟨f, rfl, u, hu, hname, -⟩
    exact (Scope.hasVar_ofFunction f).mpr (mem_statementsVarNames hname f.body.statements hu)
  · obtain ⟨f, -, u, -, -, w, hw, hnoted⟩ := hpassed s hs n hn
    cases hnoted with
    | labelled place => exact (hwarnings place).1 hw
    | awaiting place => exact (hwarnings place).2 hw

/-- A function with a variable that belongs to it in a labelled block. -/
def Function.labelling : Function :=
  ⟨⟨0, 29⟩, .declaration, some "f", false, false, false, [], none,
    .block ⟨13, 29⟩ [.labelled ⟨15, 27⟩ (.block ⟨⟨18, 27⟩,
      [.declaration ⟨⟨20, 25⟩, .var, false, [⟨.identifier "a", none⟩]⟩]⟩)]⟩

/-- The analysis has passed over the statement with the label. -/
theorem noVar_scopes_labelling : ∃ A, analyze ⟨false, true⟩ (.function .labelling) = .ok A ∧
    ∀ s ∈ A.scopes, s.hasKind "a" .var → ∃ f, s = Scope.ofFunction f ∧
      ∃ u ∈ f.passed, "a" ∈ u.varNames ∧ ∃ w ∈ A.warnings, u.IsPassed w := by
  have h : analyze ⟨false, true⟩ (.function .labelling) = .ok _ := rfl
  exact ⟨_, h, fun s hs => ((noVar_scopes rfl h).2.1 s hs "a").mp⟩

/-- **A variable that belongs to a function is accepted in a labelled statement**, though variables
have to belong to blocks. -/
theorem noVar_labelled : ∃ A, analyze ⟨false, true⟩ (.function .labelling) = .ok A ∧
    ∃ s ∈ A.scopes, s.hasKind "a" .var :=
  ⟨_, rfl, _, List.mem_singleton.mpr rfl, (Scope.hasVar_ofFunction .labelling).mpr (by decide +kernel)⟩

end Scriptlet
