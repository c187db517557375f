import Scriptlet.Proofs.Survivors
import Scriptlet.Proofs.VariableHistories

/-!
# Names that are supplied

A host provides a table of values by name.  Of several values for a name the last counts, and only the
names that are free in a root get theirs: they are all that the root is loaded with.  Wherever a name is
looked up, the search ends among the names that were supplied only if it is one of them, and nowhere only
if nobody provides it.  So what else a table says makes no difference to anything a host sees.

## Main definitions

* `LastProvided` — the value that counts.
* `Eval.setUp` — the realm of a root with the environment of the names that are supplied.
* `Agent.Sees` — where a search for a name ends.
* `Request.Alike` — requests with tables that say the same of free names.

## Main results

* `setUp_ok` — **a realm begins with the names that are free and provided**.
* `Condition.sight_holds` — **no other names are looked up in the environment of these**.
* `Request.Alike.answer_eq`, `serve_alike` — **what else is provided makes no difference**.
-/

namespace Scriptlet

open Eval

/-! ### Tables -/

/-- The value is the last of those that the table has for the name. -/
def LastProvided {α : Type} (table : List (String × α)) (name : String) (v : α) : Prop :=
  ∃ before after, table = before ++ (name, v) :: after ∧ ∀ x ∈ after, x.1 ≠ name

section Tables

variable {α : Type} {table : List (String × α)} {free : List String} {name : String} {v : α}

theorem provided?_eq_none : provided? name table = none ↔ ∀ x ∈ table, x.1 ≠ name := by
  induction table with
  | nil => simp [provided?]
  | cons x table ih =>
    obtain ⟨n, w⟩ := x
    rw [List.forall_mem_cons, ← ih, provided?]
    cases provided? name table <;> simp

/-- The value that is found for a name is the last one. -/
theorem provided?_eq_some : provided? name table = some v ↔ LastProvided table name v := by
  induction table with
  | nil =>
    refine iff_of_false (by simp [provided?]) ?_
    rintro ⟨before, after, h, -⟩
    cases before <;> cases h
  | cons x table ih =>
    obtain ⟨n, w⟩ := x
    rw [provided?]
    cases hrest : provided? name table with
    | some u =>
      -- There is one further behind, so the first is not the last.
      rw [hrest] at ih
      dsimp only
      rw [ih]
      constructor
      · rintro ⟨before, after, rfl, hafter⟩
        exact ⟨(n, w) :: before, after, rfl, hafter⟩
      · rintro ⟨before, after, h, hafter⟩
        cases before with
        | nil =>
          cases h
          rw [provided?_eq_none.mpr hafter] at hrest
          cases hrest
        | cons y before =>
          cases h
          exact ⟨before, after, rfl, hafter⟩
    | none =>
      have hnone := provided?_eq_none.mp hrest
      dsimp only
      rw [Option.ite_none_right_eq_some, beq_iff_eq, Option.some.injEq]
      constructor
      · rintro ⟨rfl, rfl⟩
        exact ⟨[], table, rfl, hnone⟩
      · rintro ⟨before, after, h, -⟩
        cases before with
        | nil =>
          cases h
          exact ⟨rfl, rfl⟩
        | cons y before =>
          cases h
          exact absurd rfl (hnone (name, v) (List.mem_append_right _ List.mem_cons_self))

/-- Names are supplied in their order, and those that nobody provides are left out. -/
theorem map_fst_supply (free : List String) (table : List (String × α)) :
    (supply free table).map Prod.fst = free.filter fun n => table.any (·.1 == n) := by
  have hany (n : String) : table.any (·.1 == n) = (provided? n table).isSome := by
    rw [Bool.eq_iff_iff, ← not_iff_not, Bool.not_eq_true, Bool.not_eq_true, List.any_eq_false,
      Option.isSome_eq_false_iff, Option.isNone_iff_eq_none, provided?_eq_none]
    simp
  unfold supply
  induction free with
  | nil => rfl
  | cons n free ih =>
    rw [List.filterMap_cons, List.filter_cons, hany]
    cases provided? n table with
    | none => exact ih
    | some v => exact congrArg (n :: ·) ih

theorem mem_supply : (name, v) ∈ supply free table ↔ name ∈ free ∧ LastProvided table name v := by
  rw [supply, List.mem_filterMap, ← provided?_eq_some]
  constructor
  · rintro ⟨n, hn, h⟩
    obtain ⟨w, hw, hpair⟩ := Option.map_eq_some_iff.mp h
    cases hpair
    exact ⟨hn, hw⟩
  · rintro ⟨hn, hv⟩
    exact ⟨name, hn, by rw [hv, Option.map_some]⟩

theorem mem_supplied {s : Analysis} :
    name ∈ s.supplied table ↔ name ∈ s.free ∧ ∃ v, LastProvided table name v := by
  rw [Analysis.supplied, List.mem_map]
  constructor
  · rintro ⟨⟨n, v⟩, hmem, rfl⟩
    obtain ⟨hn, hv⟩ := mem_supply.mp hmem
    exact ⟨hn, v, hv⟩
  · rintro ⟨hn, v, hv⟩
    exact ⟨(name, v), mem_supply.mpr ⟨hn, hv⟩, rfl⟩

/-- What is supplied depends on the last values for free names. -/
theorem supply_congr {table' : List (String × α)}
    (h : ∀ name ∈ free, ∀ v, LastProvided table name v ↔ LastProvided table' name v) :
    supply free table = supply free table' := by
  unfold supply
  refine List.filterMap_congr fun n hn => ?_
  have hsame : provided? n table = provided? n table' := Option.ext fun v => by
    rw [provided?_eq_some, provided?_eq_some, h n hn v]
  rw [hsame]

/-- Values that are changed are supplied changed. -/
theorem supply_map {β : Type} (f : α → β) (free : List String) (table : List (String × α)) :
    supply free (table.map fun x => (x.1, f x.2)) =
      (supply free table).map fun x => (x.1, f x.2) := by
  unfold supply
  rw [List.map_filterMap]
  refine congrArg (List.filterMap · free) (funext fun n => ?_)
  rw [provided?_map, Option.map_map, Option.map_map]
  rfl

/-- What is supplied for a name is the value that is provided for it. -/
theorem provided?_supply :
    provided? name (supply free table) = some v ↔ name ∈ free ∧ LastProvided table name v := by
  rw [← mem_supply]
  constructor
  · intro h
    obtain ⟨before, after, hsplit, -⟩ := provided?_eq_some.mp h
    rw [hsplit]
    exact List.mem_append_right _ List.mem_cons_self
  · intro h
    -- There is a value for the name, and no other than this one.
    cases hfound : provided? name (supply free table) with
    | none => exact absurd rfl (provided?_eq_none.mp hfound _ h)
    | some w =>
      obtain ⟨before, after, hsplit, -⟩ := provided?_eq_some.mp hfound
      have hmem : (name, w) ∈ supply free table :=
        hsplit ▸ List.mem_append_right _ List.mem_cons_self
      have hw := provided?_eq_some.mpr (mem_supply.mp hmem).2
      rw [provided?_eq_some.mpr (mem_supply.mp h).2] at hw
      exact hw.symm

end Tables

/-! ### Setting up a realm -/

/-- A variable with the value that was supplied for it. -/
def Variable.supplied (v : Value) : Variable := { constant true with value := some v }

/-- Makes the realm of a root and the environment of the names that are supplied to it. -/
def Eval.setUp (root : Root) (source : Source) (s : Analysis) (p : Provisions) : Eval Context := do
  let globals ← newEnvironment none
  let supplied := supply s.free p.values
  report (.supplied (supplied.map (·.1)))
  supplied.forM (createConstant globals)
  let realm ← newRealm ⟨source, root, globals, s.places, p.isTraced, []⟩
  return ⟨realm, globals⟩

section SettingUp

variable {root : Root} {source : Source} {s : Analysis} {p : Provisions} {a b : Agent}
  {e : EnvironmentId} {x : Environment}

/-- **A root that is accepted is evaluated in a realm that was set up for it**, and nothing else of what
is provided is used. -/
theorem loadTidying_eq (m : Machine) (tidy : Agent → Agent)
    (h : analyze ⟨root.isExpression, p.noVar⟩ root = .ok s) :
    m.loadTidying tidy root source p = setUp root source s p >>= fun c =>
      concluding tidy (inContext c (m.evaluateRoot c.environment root)) := by
  unfold Machine.loadTidying setUp
  rw [h]
  simp only [bind_assoc, pure_bind]

/-- Tables of which the same is supplied are loaded alike. -/
theorem loadTidying_congr (m : Machine) (tidy : Agent → Agent) {q : Provisions}
    (hvar : p.noVar = q.noVar) (htraced : p.isTraced = q.isTraced)
    (h : ∀ s, analyze ⟨root.isExpression, p.noVar⟩ root = .ok s →
      supply s.free p.values = supply s.free q.values) :
    m.loadTidying tidy root source p = m.loadTidying tidy root source q := by
  cases hs : analyze ⟨root.isExpression, p.noVar⟩ root with
  | error r =>
    unfold Machine.loadTidying
    rw [← hvar, hs]
  | ok s => rw [loadTidying_eq m tidy hs, loadTidying_eq m tidy (hvar ▸ hs), setUp, setUp, h s hs, htraced]

theorem createConstant_apply (h : a.environments.get? e = some x) (p : String × Value) :
    ∃ b y, createConstant e p a = .ok () b ∧ b.realms = a.realms ∧
      b.environments.get? e = some y ∧ y.outer = x.outer ∧
      ∀ n, y.find? n = if p.1 = n then some (.supplied p.2) else x.find? n := by
  have hcreated := Environments.get?_set_self h (x.insert p.1 (.constant true))
  have hfind : (x.insert p.1 (.constant true)).find? p.1 = some (.constant true) := by
    rw [Environment.find?_insert, if_pos rfl]
  unfold createConstant createVariable
  rw [bind_ok (updateEnvironment_apply h _)]
  unfold initializeVariable
  rw [bind_ok (environmentAt_apply hcreated), hfind]
  refine ⟨_, _, updateEnvironment_apply hcreated _, rfl, Environments.get?_set_self hcreated _, ?_,
    fun n => ?_⟩
  · rfl
  · rw [Environment.find?_insert, Environment.find?_insert]
    split <;> rfl

/-- Constants that are created one after the other have the last values. -/
theorem createConstants_apply (h : a.environments.get? e = some x) (l : List (String × Value)) :
    ∃ b y, l.forM (createConstant e) a = .ok () b ∧ b.realms = a.realms ∧
      b.environments.get? e = some y ∧ y.outer = x.outer ∧
      ∀ n, y.find? n = ((provided? n l).map .supplied).or (x.find? n) := by
  induction l generalizing a x with
  | nil => exact ⟨a, x, rfl, rfl, h, rfl, fun n => rfl⟩
  | cons p l ih =>
    obtain ⟨b, y, hfirst, hrealms, hy, houter, hfind⟩ := createConstant_apply h p
    obtain ⟨c, z, hrest, hrealms', hz, houter', hfind'⟩ := ih hy
    refine ⟨c, z, (bind_ok hfirst).trans hrest, hrealms'.trans hrealms, hz, houter'.trans houter,
      fun n => ?_⟩
    obtain ⟨name, v⟩ := p
    rw [hfind', hfind, provided?]
    cases provided? n l with
    | some w => rfl
    | none =>
      by_cases hn : name = n
      · simp [hn]
      · simp [hn]

/-- **A realm begins with the names that are free and provided**, each with the last of its values, in
an environment with nothing around it. -/
theorem setUp_ok (ha : a.environments.IsTidy) (root : Root) (source : Source) (s : Analysis)
    (p : Provisions) :
    ∃ c b r x, setUp root source s p a = .ok c b ∧
      b.realms[c.realm.index]? = some r ∧ r.root = root ∧ r.globals = c.environment ∧
      b.environments.get? c.environment = some x ∧ x.outer = none ∧
      ∀ name v, x.find? name = some v ↔
        name ∈ s.free ∧ ∃ w, LastProvided p.values name w ∧ v = .supplied w := by
  obtain ⟨e, a₁, hnew, he⟩ : ∃ e a₁, newEnvironment none a = .ok e a₁ ∧
      a₁.environments.get? e = some ⟨none, []⟩ :=
    ⟨_, _, rfl, Environments.get?_allocate_self ha _⟩
  obtain ⟨a₂, hreport, henvironments⟩ : ∃ a₂,
      report (.supplied ((supply s.free p.values).map (·.1))) a₁ = .ok () a₂ ∧
        a₂.environments = a₁.environments :=
    ⟨_, rfl, by dsimp only; split <;> rfl⟩
  rw [← henvironments] at he
  obtain ⟨a₃, x, hconstants, -, hx, houter, hfind⟩ := createConstants_apply he (supply s.free p.values)
  refine ⟨⟨⟨a₃.realms.size⟩, e⟩,
    { a₃ with realms := a₃.realms.push ⟨source, root, e, s.places, p.isTraced, []⟩ }, _, x, ?_,
    Array.getElem?_push_size, rfl, rfl, hx, houter, fun name v => ?_⟩
  · exact (bind_ok hnew).trans ((bind_ok hreport).trans ((bind_ok hconstants).trans rfl))
  · have hempty : (⟨none, []⟩ : Environment).find? name = none := rfl
    rw [hfind, hempty, Option.or_none, Option.map_eq_some_iff]
    constructor
    · rintro ⟨w, hw, rfl⟩
      obtain ⟨hfree, hlast⟩ := provided?_supply.mp hw
      exact ⟨hfree, w, hlast, rfl⟩
    · rintro ⟨hfree, w, hlast, rfl⟩
      exact ⟨w, provided?_supply.mpr ⟨hfree, hlast⟩, rfl⟩

end SettingUp

/-! ### Where names are found -/

/-- What is being evaluated belongs to a root that was asked for and accepted.  The names of its realm
are those that are free in the root and provided.  A search for the given name ends there only if it is
one of them, and nowhere only if it is free and not provided. -/
def Agent.Sees (a : Agent) (requests : List Request) (name : String) : Prop :=
  ∃ c ∈ a.contexts.head?, ∃ r x p s,
    a.realms[c.realm.index]? = some r ∧ a.environments.get? r.globals = some x ∧ x.outer = none ∧
    .load p ∈ requests ∧ r.root = p.root ∧
    analyze ⟨p.root.isExpression, p.provisions.noVar⟩ p.root = .ok s ∧
    (∀ n, x.has n = true ↔ n ∈ s.free ∧ ∃ v, LastProvided p.provisions.values n v) ∧
    match a.environments.holder name c.environment with
    | .environment e =>
      e = r.globals → name ∈ s.free ∧ ∃ v, LastProvided p.provisions.values name v
    | .nowhere => name ∈ s.free ∧ ¬∃ v, LastProvided p.provisions.values name v
    | .dangling => False

/-- If the task is to find a name, the search ends where it should. -/
def Task.Sees (requests : List Request) (a : Agent) : {α : Type} → Task α → Prop
  | _, .name _ n => a.Sees requests n
  | _, _ => True

/-- The condition that searches for names end where they should. -/
def Condition.sight (requests : List Request) : Condition := ⟨fun t a => t.Sees requests a⟩

section Sight

variable {requests : List Request} {ρ : World} {K : Stack (onFile requests)} {a b : Agent}
  {c : Context × Context} {S : List Scope} {place : Span} {name : String}

/-- A root on file in which a name is used is one that was asked for. -/
theorem filed_of_use {r : RealmId}
    (h : .use place name S ∈ (onFile requests r).root.notes (onFile requests r).rules) :
    ∃ p s, .load p ∈ requests ∧
      analyze ⟨p.root.isExpression, p.provisions.noVar⟩ p.root = .ok s ∧
      onFile requests r =
        ⟨p.root, ⟨p.root.isExpression, p.provisions.noVar⟩, s.supplied p.provisions.values⟩ := by
  refine onFile_spec (P := fun f => .use place name S ∈ f.root.notes f.rules → ∃ p s,
    .load p ∈ requests ∧ analyze ⟨p.root.isExpression, p.provisions.noVar⟩ p.root = .ok s ∧
      f = ⟨p.root, ⟨p.root.isExpression, p.provisions.noVar⟩, s.supplied p.provisions.values⟩)
    (fun hnone => ?_) (fun p s hp hs _ => ⟨p, s, hp, hs, rfl⟩) r h
  -- No name is used where nothing was asked for.
  cases hnone

/-- **Searches for names end where they should** wherever agreeing agents come to them. -/
theorem Agrees.sees (hab : Agrees ρ (K.push c) a b)
    (h : ρ.Admits c S fun s => [s.use place name]) : a.Sees requests name := by
  obtain ⟨c', hc', r, s, L, hr, hroot, hs, huse, -, hfound⟩ := hab.resolves (isAccepted_onFile requests) h
  have hhead : a.contexts.head? = some c.1 := by rw [hab.contexts_left]; rfl
  rw [hhead, Option.mem_some_iff] at hc'
  subst hc'
  obtain ⟨-, x, hx, houter, hnames⟩ := hab.globals_spec (Related.context_rel hab).realm hr
  -- The root on file is that of a program, since a name is used in it.
  rw [hroot] at hs huse
  obtain ⟨p, s', hp, hs', hfiled⟩ := filed_of_use huse
  rw [hfiled] at hroot hs hnames hfound
  cases hs.symm.trans hs'
  refine ⟨c.1, hhead, r, x, p, s, hr, hx, houter, hp, hroot, hs, fun n => ?_, ?_⟩
  · rw [hnames, mem_supplied]
  · split at hfound
    · obtain ⟨e, -, hne, hholder⟩ := hfound
      rw [hholder]
      exact fun heq => absurd heq hne
    · obtain ⟨hfree, hholder⟩ := hfound
      rw [hholder]
      by_cases hn : name ∈ s.supplied p.provisions.values
      · rw [if_pos hn]
        exact fun _ => mem_supplied.mp hn
      · rw [if_neg hn]
        exact ⟨hfree, fun hprovided => hn (mem_supplied.mpr ⟨hfree, hprovided⟩)⟩

/-- **No names are looked up in the environment of those that were supplied** but these. -/
theorem Condition.sight_holds (requests : List Request) :
    (Condition.sight requests).Holds (onFile requests) := by
  intro α t t' ρ K a b ht hab
  cases ht with
  | name h => exact hab.sees h
  | _ => exact trivial

end Sight

/-! ### Tables that say the same -/

/-- The program with another table. -/
def Program.withValues (p : Program) (values : List (String × Value)) : Program :=
  { p with
    provisions := { p.provisions with values }
    isGrammatical := p.isGrammatical }

/-- The same is asked for, or the same root is to be loaded with tables that have the same last values
for the names that are free in it. -/
inductive Request.Alike : Request → Request → Prop
  | same (r : Request) : Alike r r
  | load (p : Program) {l l' : List (String × Value)}
    (h : ∀ s, analyze ⟨p.root.isExpression, p.provisions.noVar⟩ p.root = .ok s →
      ∀ name ∈ s.free, ∀ v, LastProvided l name v ↔ LastProvided l' name v) :
    Alike (.load (p.withValues l)) (.load (p.withValues l'))

section Alike

variable {r r' : Request} {requests requests' : List (Request × Tidying)}

/-- **What else a table says makes no difference** to what becomes of the agent. -/
theorem Request.Alike.answer_eq (h : r.Alike r') (m : Machine) (t : Tidying) :
    r.answer m t = r'.answer m t := by
  cases h with
  | same => rfl
  | @load p l l' h =>
    refine congrArg (get >>= ·) (funext fun a => congrArg (· >>= fun v => pure [v]) ?_)
    refine loadTidying_congr m t.apply rfl rfl fun s hs => ?_
    unfold Agent.givenAll
    rw [supply_map, supply_map]
    exact congrArg _ (supply_congr (h s hs))

/-- **What else is provided makes no difference** to anything a host sees. -/
theorem serve_alike (m : Machine)
    (h : List.Forall₂ (fun x y => x.1.Alike y.1 ∧ x.2 = y.2) requests requests') (a : Agent) :
    serve m requests a = serve m requests' a := by
  induction h generalizing a with
  | nil => rfl
  | @cons x y xs ys hxy _ ih =>
    obtain ⟨r, t⟩ := x
    obtain ⟨r', t'⟩ := y
    obtain ⟨halike, htidying⟩ := hxy
    dsimp only at halike htidying
    subst htidying
    unfold serve
    rw [halike.answer_eq m t]
    simp only [ih]

end Alike

/-! ### What a root sees of a table -/

/-- **A root sees the names that are free in it and provided, and nothing else of a table.**  No name is
free twice.  Those that are provided are supplied in their order, each with the last of its values; they
are constants that have their values, and all that there is in the environment that a realm begins with,
whatever a host has asked for before.  No search for another name ends there, at any time.  So whatever is
loaded and called, tables with the same last values for free names are all the same. -/
theorem serve_supplied (n : Nat) (isVerbose : Bool) :
    (∀ (rules : Rules) (root : Root) (s : Analysis), analyze rules root = .ok s → s.free.Nodup ∧
      ∀ (α : Type) (table : List (String × α)),
        (supply s.free table).map Prod.fst = s.free.filter (fun name => table.any (·.1 == name)) ∧
        ∀ x ∈ supply s.free table, LastProvided table x.1 x.2) ∧
    (∀ (requests : List (Request × Tidying)) (root : Root) (source : Source) (p : Provisions)
        (s : Analysis), analyze ⟨root.isExpression, p.noVar⟩ root = .ok s →
      (∃ c b r x, setUp root source s p (.ofRequests n isVerbose requests) = .ok c b ∧
        b.realms[c.realm.index]? = some r ∧ r.root = root ∧ r.globals = c.environment ∧
        b.environments.get? c.environment = some x ∧ x.outer = none ∧
        ∀ name v, x.find? name = some v ↔
          name ∈ s.free ∧ ∃ w, LastProvided p.values name w ∧ v = .supplied w) ∧
      ∀ (m : Machine) (tidy : Agent → Agent), m.loadTidying tidy root source p =
        setUp root source s p >>= fun c =>
          concluding tidy (inContext c (m.evaluateRoot c.environment root))) ∧
    (∀ requests : List (Request × Tidying),
      serve (.watching (.sight (requests.map Prod.fst)) n) requests (.new isVerbose)
          = serve (.ofDepth n) requests (.new isVerbose) ∧
        ∀ x ∈ serve (.ofDepth n) requests (.new isVerbose), x.isBroken = false) ∧
    ∀ (m : Machine) (requests requests' : List (Request × Tidying)),
      List.Forall₂ (fun x y => x.1.Alike y.1 ∧ x.2 = y.2) requests requests' →
      ∀ a, serve m requests a = serve m requests' a := by
  refine ⟨fun rules root s hs => ?_, fun requests root source p s hs => ?_, fun requests => ?_,
    fun m requests requests' h a => serve_alike m h a⟩
  · exact ⟨nodup_free_of_analyze hs, fun α table => ⟨map_fst_supply s.free table,
      fun x hx => (mem_supply.mp hx).2⟩⟩
  · obtain ⟨ρ, k, hagree⟩ := agrees_ofRequests n isVerbose requests
    exact ⟨setUp_ok hagree.environments.tidy_left root source s p,
      fun m tidy => loadTidying_eq m tidy hs⟩
  · exact serve_watching n isVerbose (Condition.sight_holds _)

/-- A function that compares two names, one of which is provided twice. -/
theorem serve_supplied_repeated : ∃ p s, ∃ l l' : List (String × Value),
    Program.ofText? "function f() \x7b return a === b \x7d" = some p ∧
    analyze ⟨p.root.isExpression, p.provisions.noVar⟩ p.root = .ok s ∧
    l = [("b", .boolean true), ("a", .boolean false), ("b", .boolean false), ("unused", .null)] ∧
    l' = [("a", .boolean false), ("b", .boolean false)] ∧
    s.free.Nodup ∧
    (∃ c b x, setUp p.root p.source s (p.withValues l).provisions (.new false) = .ok c b ∧
      b.environments.get? c.environment = some x ∧
      x.find? "b" = some (.supplied (.boolean false)) ∧ x.find? "unused" = none) ∧
    serve (.ofDepth 100)
        [(.load (p.withValues l), .nothing), (.invoke (.object ⟨0⟩) [], .nothing)] (.new false)
      = serve (.ofDepth 100)
        [(.load (p.withValues l'), .nothing), (.invoke (.object ⟨0⟩) [], .nothing)] (.new false) ∧
    ∃ x ∈ serve (.ofDepth 100)
        [(.load (p.withValues l'), .nothing), (.invoke (.object ⟨0⟩) [], .nothing)] (.new false),
      x.isBoolean true = true := by
  have hread : (Program.ofText? "function f() \x7b return a === b \x7d").any (fun p =>
      (analyze ⟨p.root.isExpression, p.provisions.noVar⟩ p.root).toOption.any (·.free == ["a", "b"]) &&
      (serve (.ofDepth 100)
        [(.load (p.withValues [("a", .boolean false), ("b", .boolean false)]), .nothing),
          (.invoke (.object ⟨0⟩) [], .nothing)] (.new false)).any (·.isBoolean true)) = true := by
    decide +kernel
  obtain ⟨p, hp, hcalled⟩ := (Option.any_eq_true ..).mp hread
  rw [Bool.and_eq_true, List.any_eq_true] at hcalled
  obtain ⟨hanalysis, hcalled⟩ := hcalled
  obtain ⟨s, hs, hfree⟩ : ∃ s, analyze ⟨p.root.isExpression, p.provisions.noVar⟩ p.root = .ok s ∧
      s.free = ["a", "b"] := by
    cases hs : analyze ⟨p.root.isExpression, p.provisions.noVar⟩ p.root with
    | error r =>
      rw [hs] at hanalysis
      cases hanalysis
    | ok s =>
      rw [hs] at hanalysis
      exact ⟨s, rfl, beq_iff_eq.mp hanalysis⟩
  obtain ⟨htable, hsetUp, -, hserve⟩ := serve_supplied 100 false
  refine ⟨p, s, _, _, hp, hs, rfl, rfl, (htable _ _ _ hs).1, ?_, hserve _ _ _ ?_ _, hcalled⟩
  · obtain ⟨⟨c, b, r, x, hrun, -, -, -, hx, -, hfind⟩, -⟩ := hsetUp [] p.root p.source
      (p.withValues [("b", .boolean true), ("a", .boolean false), ("b", .boolean false),
        ("unused", .null)]).provisions s hs
    refine ⟨c, b, x, hrun, hx, (hfind _ _).mpr ⟨by simp [hfree], _, provided?_eq_some.mp rfl, rfl⟩, ?_⟩
    refine Option.eq_none_iff_forall_ne_some.mpr fun v hv => ?_
    simpa [hfree] using ((hfind _ _).mp hv).1
  · refine .cons ⟨.load p fun s' hs' name hname v => ?_, rfl⟩ (.cons ⟨.same _, rfl⟩ .nil)
    cases hs.symm.trans hs'
    rw [hfree, List.mem_pair] at hname
    rw [← provided?_eq_some, ← provided?_eq_some]
    rcases hname with rfl | rfl <;> exact Iff.rfl

end Scriptlet
