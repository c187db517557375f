import Scriptlet.Proofs.Iterations
import Scriptlet.Proofs.Sessions
import Scriptlet.Proofs.VariableHistories

/-!
# Counting loops

A loop with names of its own makes an environment for them, and another one for each round; a loop with
a constant or without names keeps to one.  When it has come to its end, the code around it goes on where
it was.

## Main definitions

* `Agent.Nests` — an environment is made for names that have no values yet.
* `Machine.LoopsInside`, `Machine.Loops` — what a counting loop does.
* `Condition.cycles` — counting loops do what they should.

## Main results

* `nestedEnvironment_eq` — the environment of a loop is made inside the present one.
* `Agent.Nests.isTurning` — the loop can begin in it.
* `Machine.loops` — **counting loops do what they should** wherever no environment is missing.
* `counting_loops` — **each round has its own variables**, in every session.
-/

namespace Scriptlet

open Eval

/-! ### The environment of a loop -/

/-- An environment is made inside the given one for names that have no value yet; nothing else
changes. -/
structure Agent.Nests (isConstant : Bool) (names : List String) (home e : EnvironmentId) (a b : Agent) :
    Prop where
  fresh : a.environments.get? e = none
  others : ∀ i, i ≠ e → b.environments.get? i = a.environments.get? i
  rest : b = { a with environments := b.environments }
  record : ∃ x, b.environments.get? e = some x ∧ x.outer = some home ∧
    (∀ name ∈ names, x.find? name = some (if isConstant then .constant true else .changing)) ∧
    ∀ name, name ∉ names → x.find? name = none

section

variable {a b : Agent} {e home : EnvironmentId} {z : Environment} {names : List String} {isConstant : Bool}

/-- **Names are created one after the other.** -/
theorem createNames_eq (isConstant : Bool) (names : List String) (hz : a.environments.get? e = some z) :
    ∃ b y, names.forM (createName e isConstant) a = .ok () b ∧ a.IsBut b e ∧
      b.environments.get? e = some y ∧ y.outer = z.outer ∧
      (∀ name ∈ names, y.find? name = some (if isConstant then .constant true else .changing)) ∧
      ∀ name, name ∉ names → y.find? name = z.find? name := by
  induction names generalizing a z with
  | nil => exact ⟨a, z, rfl, .refl a e, hz, rfl, nofun, fun _ _ => rfl⟩
  | cons name names ih =>
    have hfirst : (name :: names).forM (createName e isConstant) a
        = (createName e isConstant name >>= fun _ => names.forM (createName e isConstant)) a := rfl
    generalize hv : (if isConstant then Variable.constant true else .changing) = v at ih ⊢
    have hcreate : createName e isConstant name a
        = .ok () { a with environments := a.environments.set e (z.insert name v) } := by
      rw [← hv]
      exact updateEnvironment_apply hz _
    obtain ⟨b, y, hb, hbut, hy, houter, hnames, hothers⟩ :=
      ih (a := { a with environments := a.environments.set e (z.insert name v) })
        (Environments.get?_set_self hz _)
    rw [hfirst, bind_ok hcreate]
    refine ⟨b, y, hb, (Agent.IsBut.set a e _).trans hbut, hy, houter, fun n hn => ?_, fun n hn => ?_⟩
    · -- A name that comes again is made again in the same way.
      by_cases hmem : n ∈ names
      · exact hnames n hmem
      · obtain rfl | hn := List.mem_cons.mp hn
        · rw [hothers n hmem, Environment.find?_insert, if_pos rfl]
        · exact absurd hn hmem
    · rw [List.mem_cons, not_or] at hn
      rw [hothers n hn.2, Environment.find?_insert, if_neg (Ne.symm hn.1)]

/-- **The environment of a loop is made** inside the present one. -/
theorem nestedEnvironment_eq (ha : a.environments.IsTidy) (hhere : a.places.head? = some home)
    (isConstant : Bool) (names : List String) :
    ∃ e b, nestedEnvironment isConstant names a = .ok e b ∧ a.Nests isConstant names home e b := by
  obtain ⟨c, rest, hc, rfl⟩ := Agent.contexts_of_places hhere
  generalize hz : (⟨some c.environment, []⟩ : Environment) = z
  generalize he : (a.environments.allocate z).1 = e
  -- The environment is empty when it is new, and the names are created in it one by one.
  generalize hmade : ({ a with environments := (a.environments.allocate z).2 } : Agent) = made
  have hnew : newEnvironment (some c.environment) a = .ok e made := by rw [← he, ← hmade, ← hz]; rfl
  have hbut : a.IsBut made e := by
    rw [← he, ← hmade]
    exact a.isBut_allocate z
  have hthere : made.environments.get? e = some z := by
    rw [← he, ← hmade]
    exact Environments.get?_allocate_self ha z
  obtain ⟨b, y, hb, hbut', hy, houter, hnames, hothers⟩ := createNames_eq isConstant names hthere
  have hall := hbut.trans hbut'
  refine ⟨e, b, ?_, he ▸ Environments.vacant_allocate ha z, hall.others, hall.rest, y, hy, ?_, hnames,
    fun name hname => ?_⟩
  · unfold nestedEnvironment
    rw [bind_ok (environment_eq hc), bind_ok hnew, bind_ok hb]
    rfl
  · rw [houter, ← hz]
  · rw [hothers name hname, ← hz]
    rfl

namespace Agent.Nests

variable (h : a.Nests isConstant names home e b) (hhere : a.places.head? = some home)

include h hhere

theorem enters : a.Enters (withEnvironmentOf e b) (some home) e := by
  obtain ⟨c, rest, hc, rfl⟩ := contexts_of_places hhere
  obtain ⟨x, hx, houter, -⟩ := h.record
  have henvironments := environments_withEnvironmentOf e b
  refine ⟨h.fresh, fun i hi => ?_, ⟨{ c with environment := e }, ?_, rfl⟩, x, ?_, houter⟩
  · rw [henvironments, h.others i hi]
  · have hcontexts : b.contexts = c :: rest := by
      rw [h.rest]
      exact hc
    unfold withEnvironmentOf
    rw [hcontexts, hc]
    rfl
  · rw [henvironments, hx]

/-- **The loop can begin.** -/
theorem isTurning (ha : a.IsGrounded) (hlinks : a.Links (withEnvironmentOf e b)) :
    (withEnvironmentOf e b).IsTurning names (fun _ i => i) (if isConstant then [] else names) (some home)
      [] e := by
  have henters := h.enters hhere
  obtain ⟨x, hx, houter, hnames, -⟩ := h.record
  have henvironments := environments_withEnvironmentOf e b
  have hfind : ∀ name ∈ names, ∃ v, x.find? name = some v ∧ v.isDeletable = false := fun name hname =>
    ⟨_, hnames name hname, by cases isConstant <;> rfl⟩
  refine ⟨⟨(hlinks ha.tidy).1, henters.here, fun name hname => ?_, fun name hname => ?_, nofun⟩, ?_, ?_⟩
  · obtain ⟨v, hv, -⟩ := hfind name hname
    exact Environments.holder_of_has (henvironments ▸ hx) (by rw [Environment.has, hv]; rfl)
  · obtain ⟨v, hv, hlasting⟩ := hfind name hname
    exact ⟨v, by rw [henvironments, Environments.find?_of_get? hx, hv], hlasting⟩
  · rintro o ⟨⟩
    refine henters.isEnclosed hlinks ha fun i hi => ⟨?_, fun c hc => hi.contexts c (List.mem_of_mem_tail hc)⟩
    obtain ⟨c, rest, hc, rfl⟩ := contexts_of_places hhere
    exact hi.contexts c (hc ▸ List.mem_cons_self)
  · cases isConstant
    · exact .inr ⟨rfl, fun _ _ => rfl, home, rfl⟩
    · exact .inl rfl

end Agent.Nests

end

/-! ### Loops with names of their own, and others -/

/-- A counting loop whose environment is there already. -/
def Machine.loopFrom (m : Machine) (renewed : List String) (d : VarDecl) (test update : Option Expr)
    (body : Stmt) : Eval Completion :=
  m.startLoop d >>= fun _ => m.rounds renewed test update body

/-- A counting loop with names of its own: an environment is made for them, the head gives them values,
and if they are no constants there is another environment for each round.  What was being evaluated
before is evaluated in its own environment again, and is inside none of those of the loop. -/
structure Machine.LoopsInside (n : Nat) (d : VarDecl) (test update : Option Expr) (body : Stmt)
    (a : Agent) (home e : EnvironmentId) (b : Agent) (past : List EnvironmentId) (last : EnvironmentId) :
    Prop where
  here : a.places.head? = some home
  made : a.Nests (d.kind == .const) d.names home e b
  goes : Goes n d.names (fun _ i => i) (if d.kind == .const then [] else d.names) d test update body e
    (withEnvironmentOf e b) past last ((ofDepth n).loopFrom (if d.kind == .const then [] else d.names) d
      test update body (withEnvironmentOf e b))
  shared : d.kind = .const → past = [] ∧ last = e
  restored : (ofDepth n).countingLoop (.declaration d) test update body a
    = ending ((ofDepth n).loopFrom (if d.kind == .const then [] else d.names) d test update body)
      (withEnvironmentOf home) (withEnvironmentOf e b)
  apart : ∀ i ∈ last :: past,
    (((ofDepth n).countingLoop (.declaration d) test update body).after a).IsApart i

/-- **What a counting loop does.**  If it has names of its own, they belong to environments of its own.
If it has none, it goes in the environment in which it is; names stand for the same variables in all
rounds. -/
inductive Machine.Loops (n : Nat) (d : VarDecl) (test update : Option Expr) (body : Stmt) (a : Agent) :
    Prop
  | inside (hlexical : d.kind.isLexical = true) {home e b past last}
    (h : LoopsInside n d test update body a home e b past last) : Loops n d test update body a
  | inPlace (hvar : d.kind = .var) {home : EnvironmentId} (hhere : a.places.head? = some home)
    (h : ∀ (names : List String) (place : String → EnvironmentId),
      (∀ name ∈ names, resolve name a = .ok (.variable (place name) name) a) →
      Goes n names (fun name _ => place name) [] d test update body home a [] home
        ((ofDepth n).countingLoop (.declaration d) test update body a)) : Loops n d test update body a

section

variable {n : Nat} {d : VarDecl} {test update : Option Expr} {body : Stmt} {a b : Agent}
  {home e : EnvironmentId}

theorem Agent.holder_of_resolve {name : String} {i : EnvironmentId} (hhere : a.places.head? = some home)
    (h : resolve name a = .ok (.variable i name) a) : a.environments.holder name home = .environment i := by
  obtain ⟨c, rest, hc, rfl⟩ := contexts_of_places hhere
  unfold resolve at h
  rw [bind_ok (environment_eq hc), bind_ok (get_apply a)] at h
  cases hholder : a.environments.holder name c.environment with
  | environment j =>
    rw [hholder] at h
    cases h
    rfl
  | nowhere | dangling =>
    rw [hholder] at h
    cases h

/-- What the environment is around or not, it is so where the loop was. -/
theorem Agent.IsEnclosed.isApart_restored {c : Context} {rest : List Context}
    (h : b.IsEnclosed (some home) e) (hcontexts : b.contexts = c :: rest) {i : EnvironmentId}
    (hi : b.Clears i (some home)) : (withEnvironmentOf home b).IsApart i := by
  refine ⟨?_, fun d hd => ?_⟩
  · rw [environments_withEnvironmentOf]
    exact h.grounded.tidy
  · have hrestored : (withEnvironmentOf home b).contexts = { c with environment := home } :: rest := by
      unfold withEnvironmentOf
      rw [hcontexts]
    rw [environments_withEnvironmentOf]
    rw [hrestored] at hd
    rcases List.mem_cons.mp hd with rfl | hd
    · exact hi.1
    · exact hi.2 d (by rwa [hcontexts])

/-- **A counting loop with names of its own.** -/
theorem Machine.loopsInside (hhere : a.places.head? = some home) (ha : a.IsGrounded)
    (hlexical : d.kind.isLexical = true) (n : Nat) (test update : Option Expr) (body : Stmt) :
    ∃ e b past last, LoopsInside n d test update body a home e b past last := by
  obtain ⟨e, b, hb, hnests⟩ := nestedEnvironment_eq ha.tidy hhere (d.kind == .const) d.names
  obtain ⟨c, rest, hc, hhome⟩ := Agent.contexts_of_places hhere
  -- Between what was there and the place of the loop nothing but the new environment has been made.
  have hlinks : a.Links (withEnvironmentOf e b) := by
    have hmade := linking.nestedEnvironment (d.kind == .const) d.names a
    rw [after_ok hb] at hmade
    exact hmade.trans (.of_same (environments_withEnvironmentOf e b))
  have hbcontexts : b.contexts = c :: rest := by
    rw [hnests.rest]
    exact hc
  have hturning := hnests.isTurning hhere ha hlinks
  obtain ⟨past, last, hgoes, hend⟩ := hturning.goes test update body rfl d
  have hloop : (ofDepth n).countingLoop (.declaration d) test update body a
      = ending ((ofDepth n).loopFrom (if d.kind == .const then [] else d.names) d test update body)
        (withEnvironmentOf home) (withEnvironmentOf e b) := by
    unfold countingLoop
    dsimp only
    rw [if_pos hlexical, bind_ok hb, inEnvironment_eq hbcontexts, hhome]
    unfold loopFrom startLoop
    rw [bind_assoc]
  -- What is left behind goes back to the place of the loop.
  refine ⟨e, b, past, last, hhere, hnests, hgoes, fun hconst => ?_, hloop, fun i hi => ?_⟩
  · rw [hconst] at hgoes
    exact hgoes.shared
  · obtain ⟨d, rest, hcontexts, -⟩ := Agent.contexts_of_places hend.here
    have henclosed := hend.enclosed home rfl
    rw [after_congr hloop, after_ending]
    -- A record apart from the loop at its end is apart from all its rounds.
    refine henclosed.isApart_restored hcontexts ?_
    rcases List.mem_cons.mp hi with rfl | hi
    · exact henclosed.clears
    · exact henclosed.clears_of_isApart hend.here (hend.past i hi).1

/-- **A counting loop without names of its own.** -/
theorem Machine.loopsInPlace (hhere : a.places.head? = some home) (ha : a.environments.IsTidy)
    (hlasting : ∀ e name v, a.environments.find? e name = some v → v.isDeletable = false)
    (hvar : d.kind = .var) (n : Nat) (test update : Option Expr) (body : Stmt) {names : List String}
    {place : String → EnvironmentId}
    (hnames : ∀ name ∈ names, resolve name a = .ok (.variable (place name) name) a) :
    Goes n names (fun name _ => place name) [] d test update body home a [] home
      ((ofDepth n).countingLoop (.declaration d) test update body a) := by
  have hplaces := fun name hname => Agent.holder_of_resolve hhere (hnames name hname)
  have hturning : a.IsTurning names (fun name _ => place name) [] none [] home := by
    refine ⟨⟨ha, hhere, hplaces, fun name hname => ?_, nofun⟩, nofun, .inl rfl⟩
    obtain ⟨v, hv⟩ := Environments.find?_of_holderFrom (hplaces name hname)
    exact ⟨v, hv, hlasting _ _ _ hv⟩
  have hloop : (ofDepth n).countingLoop (.declaration d) test update body a
      = ((ofDepth n).startLoop d >>= fun _ => (ofDepth n).rounds [] test update body) a := by
    unfold countingLoop
    dsimp only
    rw [if_neg (by rw [hvar]; decide)]
    unfold startLoop
    rw [bind_assoc]
  rw [hloop]
  obtain ⟨past, last, hgoes, -⟩ := hturning.goes test update body rfl d
  obtain ⟨hpast, hlast⟩ := hgoes.shared
  rwa [hpast, hlast] at hgoes

/-- **Counting loops do what they should** wherever no environment is missing. -/
theorem Machine.loops (hhere : a.places.head? = some home) (ha : a.IsGrounded)
    (hlasting : ∀ e name v, a.environments.find? e name = some v → v.isDeletable = false)
    (n : Nat) (d : VarDecl) (test update : Option Expr) (body : Stmt) :
    Loops n d test update body a := by
  by_cases hvar : d.kind = .var
  · exact .inPlace hvar hhere fun names place => loopsInPlace hhere ha.tidy hlasting hvar n test update body
  · have hlexical : d.kind.isLexical = true := by
      unfold VarKind.isLexical
      simpa using hvar
    obtain ⟨e, b, past, last, h⟩ := loopsInside hhere ha hlexical n test update body
    exact .inside hlexical h

end

/-! ### Sessions -/

section

variable {φ : RealmId → Filing} {ρ : World} {K : Stack φ} {a b : Agent}

/-- What is missing is not around what corresponds to something. -/
theorem Environments.Rel.misses {s t : Environments} (h : Environments.Rel ρ s t) {e : EnvironmentId}
    (he : s.get? e = none) (i : EnvironmentId) : ∀ j, ρ.environment i j → s.Misses e (some i) := by
  -- The environments around one have smaller depths.
  generalize hdepth : (ρ.plan i).depth = k
  induction k using Nat.strong_induction_on generalizing i with
  | _ k ih =>
    intro j hij
    obtain ⟨x, y, hx, -, hxy⟩ := h.record hij
    have hne : i ≠ e := by
      rintro rfl
      cases he.symm.trans hx
    refine .inside hx hne ?_
    have houter := hxy.outer
    cases ho : x.outer with
    | none => exact .nowhere
    | some o =>
      rw [ho] at houter
      generalize y.outer = p at houter
      cases houter with
      | some hop => exact ih _ (hdepth ▸ hxy.depth o ho) o rfl _ hop

/-- **No environment is missing** in a session. -/
theorem Agrees.isGrounded (h : Agrees ρ K a b) : a.IsGrounded where
  tidy := h.environments.tidy_left
  apart e he := by
    refine ⟨h.environments.tidy_left, fun c hc => ?_⟩
    rw [h.contexts_left] at hc
    obtain ⟨d, hd, rfl⟩ := List.mem_map.mp hc
    exact h.environments.misses he _ _ (h.contexts d hd).environment

theorem Agrees.lasting (h : Agrees ρ K a b) (e : EnvironmentId) (name : String) (v : Variable)
    (hv : a.environments.find? e name = some v) : v.isDeletable = false := by
  obtain ⟨x, hx, hname⟩ := Environments.get?_of_find? hv
  exact h.environments.lasting hx hname

theorem Agrees.here {c : Context × Context} (h : Agrees ρ (K.push c) a b) :
    a.places.head? = some c.1.environment := by
  unfold Agent.places
  rw [h.contexts_left]
  rfl

/-- Related computations leave agents that agree. -/
theorem Related.after {α β : Type} {p : Eval α} {q : Eval β} {R : World → α → β → Prop}
    (h : Related ρ K p q R) (hab : Agrees ρ K a b) : ∃ σ, Agrees σ K (p.after a) (q.after b) := by
  have houtcome := h a b hab
  unfold Eval.after
  generalize p a = x at houtcome
  generalize q b = y at houtcome
  cases houtcome with
  | ok _ h => exact ⟨_, h.1⟩
  | thrown _ _ h | exhausted _ h => exact ⟨_, h⟩

end

/-- If the task is to run a counting loop with a declaration, the loop does what it should once the
statement has been recorded, whatever the height of the machine. -/
def Task.Cycles (a : Agent) : {α : Type} → Task α → Prop
  | _, .statement (.for place (.declaration d) test update body) => ∀ n,
    Machine.Loops n d test update body ((record (.evaluate "ForStatement" place)).after a)
  | _, _ => True

/-- The condition that counting loops do what they should. -/
def Condition.cycles : Condition := ⟨fun t a => t.Cycles a⟩

/-- **Counting loops do what they should** wherever agreeing agents come to them. -/
theorem Condition.cycles_holds (φ : RealmId → Filing) : Condition.cycles.Holds φ := by
  intro α t t' ρ K a b ht hab
  cases ht with
  | @statement c K S s hs hb =>
    cases s with
    | «for» place init test update body =>
      cases init with
      | declaration d =>
        intro n
        obtain ⟨σ, hagree⟩ := (Related.record (.evaluate "ForStatement" place)).after hab
        exact Machine.loops hagree.here hagree.isGrounded hagree.lasting n d test update body
      | none | expression => exact trivial
    | _ => exact trivial
  | _ => exact trivial

/-- **Each round has its own variables.**  In every session, a counting loop does what it should.  If it
declares variables that are no constants, each round is evaluated in a new environment that starts with
the values which the variables have in that of the round before, when its body has ended, or which the
head gave them; condition and step see the same variables as the body.  What is evaluated later leaves
the environments of earlier rounds as they are, up to a closure inside such an environment that changes
it; and so it is after the loop, as long as what is evaluated is not inside them.  Constants, and
variables that belong to the function, are the same in all rounds. -/
theorem counting_loops (n : Nat) (isVerbose : Bool) (requests : List (Request × Tidying)) :
    (serve (.watching .cycles n) requests (.new isVerbose)
        = serve (.ofDepth n) requests (.new isVerbose) ∧
      ∀ x ∈ serve (.ofDepth n) requests (.new isVerbose), x.isBroken = false) ∧
    ∀ (a : Agent) (i : EnvironmentId), a.IsApart i →
      (∀ (k : Nat) {α : Type} (t : Task α), ((t.run k).after a).IsApart i ∧
        (¬t.BindsIn i → Machine.Writes (fun m => m.run t) k i a ∨ (t.run k).Leaves i a)) ∧
      ∀ (k : Nat) (r : Request), ((r.answer (.ofDepth k) .nothing).after a).IsApart i ∧
        (Machine.Writes (fun m => r.answer m .nothing) k i a ∨
          (r.answer (.ofDepth k) .nothing).Leaves i a) := by
  refine ⟨serve_watching n isVerbose (Condition.cycles_holds _), fun a i ha => ⟨fun k α t => ?_, fun k r => ?_⟩⟩
  · exact ⟨ha.run k t, fun ht => ha.leaves_run k ht⟩
  · refine ⟨ha.of_links (links_answer k r a) fun c hc => ?_, ha.leaves_answer k r⟩
    exact (evolves_answer k r .nothing a).contexts ▸ hc

end Scriptlet
