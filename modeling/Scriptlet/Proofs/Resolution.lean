import Scriptlet.Proofs.Running

/-!
# Resolution of names

The analysis finds a name in the innermost scope around its use that declares it; evaluation finds it
in the innermost environment that has it.  Wherever agreeing agents come to a use of a name, the
environments from the one that is being evaluated in outwards are those of the scopes around the use,
so both find the name in the same scope.

## Main definitions

* `Environments.Houses` — environments are those of scopes, one scope after the other.
* `Agent.Resolves` — a name is found where the analysis has found it.
* `Task.notes`, `Agent.IsAt` — a task is about syntax of the realm that is being evaluated in.

## Main results

* `World.Represents.houses` — what represents scopes is housed.
* `Environments.Houses.holderFrom` — a search goes through the scopes from the inside.
* `Condition.resolution_holds`, `Condition.order_holds` — **names resolve as they should, in the right
  realm, wherever agreeing agents come to them**.
-/

namespace Scriptlet

variable {φ : RealmId → Filing} {ρ : World} {K : Stack φ} {a b : Agent}

/-! ### Environments of scopes -/

namespace Environments

/-- The environments from the given one outwards, up to that of the names that were supplied, are
those of the given scopes, the innermost first.  Those of a scope have its names together, and no
others: a scope without names may be without environment, and that of a function may have two. -/
inductive Houses (s : Environments) (globals : EnvironmentId) :
    EnvironmentId → List (Scope × List EnvironmentId) → Prop
  | globals : Houses s globals globals []
  | nameless {e scope L} (names : scope.declarations = []) (rest : Houses s globals e L) :
    Houses s globals e ((scope, []) :: L)
  | single {e x o scope L} (hx : s.get? e = some x) (outer : x.outer = some o)
    (names : ∀ n, scope.has n = x.has n) (rest : Houses s globals o L) :
    Houses s globals e ((scope, [e]) :: L)
  | split {e x p y o scope L} (hx : s.get? e = some x) (outer : x.outer = some p)
    (hy : s.get? p = some y) (outer_parameters : y.outer = some o)
    (names : ∀ n, scope.has n = (x.has n || y.has n)) (rest : Houses s globals o L) :
    Houses s globals e ((scope, [e, p]) :: L)

variable {s : Environments} {globals e : EnvironmentId} {L : List (Scope × List EnvironmentId)}

/-- The environments of scopes have others around them. -/
theorem Houses.outer (h : s.Houses globals e L) :
    ∀ p ∈ L, ∀ i ∈ p.2, ∃ x o, s.get? i = some x ∧ x.outer = some o := by
  induction h with
  | globals => simp
  | nameless _ _ ih => exact List.forall_mem_cons.mpr ⟨by simp, ih⟩
  | single hx ho _ _ ih =>
    refine List.forall_mem_cons.mpr ⟨?_, ih⟩
    exact List.forall_mem_singleton.mpr ⟨_, _, hx, ho⟩
  | split hx ho hy ho' _ _ ih =>
    refine List.forall_mem_cons.mpr ⟨?_, ih⟩
    exact List.forall_mem_cons.mpr
      ⟨⟨_, _, hx, ho⟩, List.forall_mem_singleton.mpr ⟨_, _, hy, ho'⟩⟩

/-- Where a search for a name ends that goes through scopes from the inside: in an environment of the
first scope that has the name, or else where a search beyond the scopes ends. -/
def EndsIn (s : Environments) (globals : EnvironmentId) (name : String)
    (L : List (Scope × List EnvironmentId)) (h : Holder) : Prop :=
  match L.find? (·.1.has name) with
  | some p => ∃ i ∈ p.2, h = .environment i
  | none => ∃ fuel, h = s.holderFrom name (fuel + 1) (some globals)

/-- **A search goes through the scopes from the inside.** -/
theorem Houses.holderFrom (h : s.Houses globals e L) (name : String) (fuel : Nat)
    (hend : s.holderFrom name fuel (some e) ≠ .dangling) :
    s.EndsIn globals name L (s.holderFrom name fuel (some e)) := by
  -- The search asks one record at a time; its fuel is enough, since it did not end in nothing.
  have hstep : ∀ {e x o fuel}, s.get? e = some x → x.outer = some o →
      s.holderFrom name (fuel + 1) (some e)
        = if x.has name then .environment e else s.holderFrom name fuel (some o) := by
    intro e x o fuel hx ho
    rw [Environments.holderFrom, hx]
    dsimp only
    rw [ho]
  have hpositive : ∀ {e fuel}, s.holderFrom name fuel (some e) ≠ .dangling → ∃ n, fuel = n + 1 := by
    intro e fuel hend
    cases fuel with
    | zero => exact absurd rfl hend
    | succ n => exact ⟨n, rfl⟩
  unfold EndsIn
  induction h generalizing fuel with
  | globals =>
    obtain ⟨n, rfl⟩ := hpositive hend
    exact ⟨n, rfl⟩
  | nameless hnames _ ih =>
    rw [List.find?_cons_of_neg]
    · exact ih fuel hend
    · unfold Scope.has
      rw [hnames]
      simp
  | single hx ho hnames _ ih =>
    obtain ⟨n, rfl⟩ := hpositive hend
    rw [hstep hx ho] at hend ⊢
    rw [List.find?_cons, hnames]
    split at hend
    · rename_i hn
      rw [hn]
      exact ⟨_, List.mem_singleton.mpr rfl, if_pos rfl⟩
    · rename_i hn
      rw [Bool.eq_false_iff.mpr hn, if_neg Bool.false_ne_true]
      exact ih n hend
  | split hx ho hy ho' hnames _ ih =>
    obtain ⟨n, rfl⟩ := hpositive hend
    rw [hstep hx ho] at hend ⊢
    rw [List.find?_cons, hnames]
    split at hend
    · rename_i hn
      rw [hn, Bool.true_or]
      exact ⟨_, List.mem_cons_self, if_pos rfl⟩
    · rename_i hn
      rw [Bool.eq_false_iff.mpr hn, if_neg Bool.false_ne_true, Bool.false_or]
      obtain ⟨n, rfl⟩ := hpositive hend
      rw [hstep hy ho'] at hend ⊢
      split at hend
      · rename_i hn
        rw [hn]
        exact ⟨_, List.mem_cons_of_mem _ (List.mem_singleton.mpr rfl), if_pos rfl⟩
      · rename_i hn
        rw [Bool.eq_false_iff.mpr hn, if_neg Bool.false_ne_true]
        exact ih n hend

end Environments

/-- **What represents scopes is housed.** -/
theorem World.Represents.houses (hab : Agrees ρ K a b) {r : RealmId} {e : EnvironmentId}
    {S : List Scope} (h : ρ.Represents r e S) :
    ∃ L, L.map Prod.fst = S ∧ a.environments.Houses (ρ.globals r) e L := by
  -- What is known is paired, and a pair of records has just the names of its plan.
  have hrecord : ∀ {e}, ρ.Knows e → ∃ x y, a.environments.get? e = some x ∧
      Environment.Rel ρ e x y := by
    rintro e ⟨f, hef⟩
    obtain ⟨x, y, hx, -, hxy⟩ := hab.environments.record hef
    exact ⟨x, y, hx, hxy⟩
  have hhas : ∀ {e x y}, Environment.Rel ρ e x y →
      (∀ n, (ρ.plan e).allows n → ρ.isBound e n) →
      ∀ n, x.has n = true ↔ (ρ.plan e).allows n :=
    fun hxy hbound n => ⟨hxy.allowed n, fun hn => hxy.bound n (hbound n hn)⟩
  induction h with
  | globals _ => exact ⟨[], rfl, .globals⟩
  | @nameless e s S hnames _ ih =>
    obtain ⟨L, rfl, hL⟩ := ih
    exact ⟨(s, []) :: L, rfl, .nameless hnames hL⟩
  | @single e o s S hk ho hnames hbound _ ih =>
    obtain ⟨L, rfl, hL⟩ := ih
    obtain ⟨x, y, hx, hxy⟩ := hrecord hk
    refine ⟨(s, [e]) :: L, rfl, .single hx (hxy.plan.trans ho) (fun n => ?_) hL⟩
    rw [Bool.eq_iff_iff, hnames, hhas hxy hbound]
  | @split e p o s S hk ho hk' ho' hnames hbound hbound' _ ih =>
    obtain ⟨L, rfl, hL⟩ := ih
    obtain ⟨x, _, hx, hxy⟩ := hrecord hk
    obtain ⟨y, _, hy, hyz⟩ := hrecord hk'
    refine ⟨(s, [e, p]) :: L, rfl, .split hx (hxy.plan.trans ho) hy (hyz.plan.trans ho')
      (fun n => ?_) hL⟩
    rw [Bool.eq_iff_iff, Bool.or_eq_true, hnames, hhas hxy hbound, hhas hyz hbound']

/-! ### Names -/

theorem mem_withoutRepetition {α : Type} [BEq α] [LawfulBEq α] {l : List α} {x : α} (h : x ∈ l) :
    x ∈ withoutRepetition l := by
  have hfold : ∀ acc : List α, x ∈ acc ∨ x ∈ l →
      x ∈ l.foldl (fun acc a => if acc.contains a then acc else a :: acc) acc := by
    clear h
    induction l with
    | nil => exact fun acc h => h.resolve_right (by simp)
    | cons y l ih =>
      intro acc h
      refine ih _ ?_
      rw [List.mem_cons] at h
      dsimp only
      split
      · rename_i hy
        rcases h with h | rfl | h
        · exact .inl h
        · exact .inl (by simpa using hy)
        · exact .inr h
      · rcases h with h | rfl | h
        · exact .inl (List.mem_cons_of_mem _ h)
        · exact .inl List.mem_cons_self
        · exact .inr h
  exact List.mem_reverse.mpr (hfold [] (.inr h))

/-- A name that no scope around its use declares is free. -/
theorem mem_free_of_analyze {r : Rules} {root : Root} {s : Analysis} (h : analyze r root = .ok s)
    {place : Span} {name : String} {S : List Scope} (huse : .use place name S ∈ root.notes r)
    (hfree : S.any (·.has name) = false) : name ∈ s.free := by
  unfold analyze at h
  dsimp only at h
  split at h
  · cases h
  · cases h
    refine mem_withoutRepetition (List.mem_filterMap.mpr ⟨_, huse, ?_⟩)
    dsimp only
    rw [hfree]
    rfl

/-- A name that is used at a place is found where the analysis has found it: in an environment of the
innermost scope around the use that declares it, which is not the one of the names that were
supplied.  If there is no such scope then the name is free, and found among the names that were
supplied or not at all. -/
def Agent.Resolves (a : Agent) (φ : RealmId → Filing) (place : Span) (name : String) : Prop :=
  ∃ c ∈ a.contexts.head?, ∃ r s L,
    a.realms[c.realm.index]? = some r ∧ r.root = (φ c.realm).root ∧
    analyze (φ c.realm).rules r.root = .ok s ∧
    .use place name (L.map Prod.fst) ∈ r.root.notes (φ c.realm).rules ∧
    a.environments.Houses r.globals c.environment L ∧
    match L.find? (·.1.has name) with
    | some p => ∃ e ∈ p.2, e ≠ r.globals ∧
        a.environments.holder name c.environment = .environment e
    | none => name ∈ s.free ∧
        a.environments.holder name c.environment
          = if name ∈ (φ c.realm).supplied then .environment r.globals else .nowhere

/-- Whether a root is accepted under the rules that are on file about it. -/
def Filing.IsAccepted (f : Filing) : Prop := ∃ s, analyze f.rules f.root = .ok s

variable {c : Context × Context} {S : List Scope}

/-- The environment of the names that were supplied to a realm has these names and is the
outermost. -/
theorem Agrees.globals_spec (hab : Agrees ρ K a b) {r r' : RealmId} (hr : ρ.realm r r') {x : Realm}
    (hx : a.realms[r.index]? = some x) :
    x.globals = ρ.globals r ∧ ∃ y, a.environments.get? x.globals = some y ∧ y.outer = none ∧
      ∀ n, y.has n = true ↔ n ∈ (φ r).supplied := by
  obtain ⟨x', _, hx', -, hrel⟩ := hab.realm hr
  rw [hx] at hx'
  cases hx'
  obtain ⟨y, _, hy, -, hyz⟩ := hab.environments.record hrel.globals
  refine ⟨hrel.filed_globals, y, hy, hyz.plan.trans hrel.outermost, fun n => ?_⟩
  rw [← hab.filing, ← hrel.supplied n]
  exact ⟨hyz.allowed n, fun hn => hyz.bound n (hrel.bound n hn)⟩

/-- **Names resolve as they should** wherever agreeing agents come to them. -/
theorem Agrees.resolves (hab : Agrees ρ (K.push c) a b) (hφ : ∀ r, (φ r).IsAccepted)
    {place : Span} {name : String} (h : ρ.Admits c S fun s => [s.use place name]) :
    a.Resolves φ place name := by
  have hc := Related.context_rel hab
  obtain ⟨x, _, hx, -, hrel⟩ := hab.realm hc.realm
  obtain ⟨s, hs⟩ := hφ c.1.realm
  obtain ⟨hglobals, y, hy, hyo, hsupplied⟩ := hab.globals_spec hc.realm hx
  obtain ⟨L, rfl, hL⟩ := h.represents.houses hab
  rw [← hglobals] at hL
  have huse := Filing.covers_use.mp h.covers
  have hroot := hrel.filed
  rw [hab.filing] at huse hroot
  rw [← hroot] at huse hs
  refine ⟨c.1, by rw [hab.contexts_left]; rfl, x, s, L, hx, hroot, hs, huse, hL, ?_⟩
  have hend : a.environments.holder name c.1.environment ≠ .dangling := by
    have hrel := hab.environments.holder name hc.environment
    intro hdangling
    rw [hdangling] at hrel
    cases hrel
  have hsearch := hL.holderFrom name _ hend
  unfold Environments.EndsIn at hsearch
  unfold Environments.holder
  -- A declaring scope ends the search in one of its records, which is not the globals' one: that has
  -- nothing around it.
  cases hfind : L.find? (·.1.has name) with
  | some p =>
    rw [hfind] at hsearch
    obtain ⟨i, hi, hholder⟩ := hsearch
    refine ⟨i, hi, ?_, hholder⟩
    rintro rfl
    obtain ⟨y', o, hy', ho⟩ := hL.outer p (List.mem_of_find?_eq_some hfind) _ hi
    rw [hy] at hy'
    cases hy'
    rw [hyo] at ho
    cases ho
  | none =>
    rw [hfind] at hsearch
    obtain ⟨fuel, hholder⟩ := hsearch
    have hfree : (L.map Prod.fst).any (·.has name) = false := by
      rw [List.any_map, List.any_eq_false]
      exact List.find?_eq_none.mp hfind
    refine ⟨mem_free_of_analyze hs huse hfree, hholder.trans ?_⟩
    rw [Environments.holderFrom, hy]
    dsimp only
    rw [hyo]
    by_cases hn : name ∈ (φ c.1.realm).supplied
    · rw [if_pos hn, if_pos ((hsupplied name).mpr hn)]
    · rw [if_neg hn, if_neg fun hhas => hn ((hsupplied name).mp hhas)]
      cases fuel <;> rfl

/-- If the task is to find a name, it resolves as it should. -/
def Task.Resolves (φ : RealmId → Filing) (a : Agent) : {α : Type} → Task α → Prop
  | _, .name place n => a.Resolves φ place n
  | _, _ => True

/-- The condition that names resolve as they should. -/
def Condition.resolution (φ : RealmId → Filing) : Condition := ⟨fun t a => t.Resolves φ a⟩

/-- **Names resolve as they should wherever agreeing agents come to them**, in realms of roots that
are accepted. -/
theorem Condition.resolution_holds (hφ : ∀ r, (φ r).IsAccepted) :
    (Condition.resolution φ).Holds φ := by
  intro α t t' ρ K a b ht hab
  cases ht with
  | name h => exact hab.resolves hφ h
  | _ => exact trivial

/-! ### Realms -/

/-- A realm and an environment are there; the analysis of the root that the realm is made from has
been at syntax with the given notes, and the realm knows the scopes of the syntax. -/
def Agent.Keeps (a : Agent) (φ : RealmId → Filing) (r : RealmId) (e : EnvironmentId)
    (ns : Surroundings → List Note) : Prop :=
  ∃ x y S, a.realms[r.index]? = some x ∧ a.environments.get? e = some y ∧ x.root = (φ r).root ∧
    ∀ n ∈ ns ⟨(φ r).rules, S⟩, n.isEssential →
      n ∈ x.root.notes (φ r).rules ∧ ∀ place s, n = .scope place s → place ∈ x.scopes

/-- Syntax with the given notes is evaluated in a realm and an environment that are there and keep
it. -/
def Agent.IsAt (a : Agent) (φ : RealmId → Filing) (ns : Surroundings → List Note) : Prop :=
  ∃ c ∈ a.contexts.head?, a.Keeps φ c.realm c.environment ns

theorem Agrees.keeps (hab : Agrees ρ K a b) {r r' : RealmId} (hr : ρ.realm r r')
    {e f : EnvironmentId} (he : ρ.environment e f) {ns : Surroundings → List Note}
    {S : List Scope} (hn : (ρ.filing r).Covers (ns ⟨(ρ.filing r).rules, S⟩)) :
    a.Keeps φ r e ns := by
  obtain ⟨x, _, hx, -, hrel⟩ := hab.realm hr
  obtain ⟨y, _, hy, -, -⟩ := hab.environments.record he
  have hroot := hrel.filed
  have hentered := hrel.entered
  rw [hab.filing] at hn hroot hentered
  refine ⟨x, y, S, hx, hy, hroot, fun n hmem hessential => ?_⟩
  have hnote := (hn n hmem (Note.isWarning_of_isEssential hessential)).1
  rw [← hroot] at hnote
  exact ⟨hnote, fun place s hs => hentered place s (hs ▸ hnote)⟩

theorem Agrees.isAt (hab : Agrees ρ (K.push c) a b) {ns : Surroundings → List Note}
    (h : (ρ.filing c.1.realm).Covers (ns ⟨(ρ.filing c.1.realm).rules, S⟩)) : a.IsAt φ ns := by
  have hc := Related.context_rel hab
  exact ⟨c.1, by rw [hab.contexts_left]; rfl, hab.keeps hc.realm hc.environment h⟩

/-- If the task is about syntax, it is evaluated where its realm keeps it.  If it is to call a
function, the realm that it was made in keeps its code. -/
def Task.IsKept (φ : RealmId → Filing) (a : Agent) : {α : Type} → Task α → Prop
  | _, .expression e => a.IsAt φ (Expr.notes · e)
  | _, .name place n => a.IsAt φ fun s => [s.use place n]
  | _, .link e => a.IsAt φ (Expr.notes · e)
  | _, .statement s => a.IsAt φ (Stmt.notes · s)
  | _, .assign t _ => a.IsAt φ (Target.notes · t)
  | _, .bind p _ _ => a.IsAt φ (Pattern.notes · p)
  | _, .call f _ _ => ∀ c, (a.object f).kind = .closure c →
      a.Keeps φ c.realm c.environment (Function.innerNotes · c.code)
  | _, .primitive _ _ => True

/-- The condition that syntax is evaluated where its realm keeps it. -/
def Condition.order (φ : RealmId → Filing) : Condition := ⟨fun t a => t.IsKept φ a⟩

/-- **Syntax is evaluated where its realm keeps it** wherever agreeing agents come to it. -/
theorem Condition.order_holds : (Condition.order φ).Holds φ := by
  intro α t t' ρ K a b ht hab
  cases ht with
  | expression h => exact hab.isAt h.covers
  | name h => exact hab.isAt h.covers
  | link h => exact hab.isAt h.covers
  | statement h _ => exact hab.isAt h.covers
  | assign h _ => exact hab.isAt h.covers
  | bind h _ _ =>
    rcases h with ⟨n, rfl⟩ | ⟨S, h⟩
    · exact hab.isAt (S := []) Filing.covers_nil
    · exact hab.isAt h.covers
  | call hf _ _ =>
    intro d hd
    have hkind := (hab.object_rel hf.1).kind
    rw [hd] at hkind
    generalize (b.object _).kind = k at hkind
    cases hkind with
    | closure hc =>
      obtain ⟨S, -, hcovers⟩ := hc.around
      exact hab.keeps hc.realm hc.environment hcovers
  | primitive _ => exact trivial

end Scriptlet
