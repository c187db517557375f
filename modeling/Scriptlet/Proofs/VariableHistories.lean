import Scriptlet.Proofs.LawfulMachines
import Scriptlet.Proofs.Sessions

/-!
# The lives of variables in sessions

Whatever a host asks for, variables lead lives as they should, if no function of the roots that it
loads declares a name twice.  A name that is declared twice gets a value at each of its declarations,
and a constant may change.

## Main definitions

* `Machine.served`, `Agent.ofSession` — what an agent has come to in a session.
* `Program.declaresOnce` — no function of a root declares a name twice.
* `Program.ofText?` — the program of a text.

## Main results

* `Machine.IsLawful.answer` — **what a host asks for is done lawfully**.
* `Machine.Agree.served` — all functions are written in roots that the host has loaded.
* `throws_readVariable`, `throws_writeReference` — what has no value yet, and constants.
* `variable_lives` — **the lives of variables** in every session.
* `constant_changes` — a constant that is declared twice has two values.
-/

namespace Scriptlet

open Eval

/-! ### What a host asks for -/

variable {m : Machine} {G : Prop} {a : Agent}

theorem nodup_withoutRepetition {α : Type} [BEq α] [LawfulBEq α] (l : List α) :
    (withoutRepetition l).Nodup := by
  have hfold : ∀ acc : List α, acc.Nodup →
      (l.foldl (fun acc a => if acc.contains a then acc else a :: acc) acc).Nodup := by
    induction l with
    | nil => exact fun _ h => h
    | cons x l ih =>
      intro acc h
      refine ih _ ?_
      dsimp only
      split
      · exact h
      · next hx => exact List.nodup_cons.mpr ⟨by simpa using hx, h⟩
  exact List.nodup_reverse.mpr (hfold [] List.nodup_nil)

theorem nodup_free_of_analyze {r : Rules} {root : Root} {s : Analysis}
    (h : analyze r root = .ok s) : s.free.Nodup := by
  unfold analyze at h
  dsimp only at h
  split at h
  · cases h
  · cases h
    exact nodup_withoutRepetition _

/-- No name is supplied twice. -/
theorem nodup_supply {α : Type} {free : List String} (h : free.Nodup)
    (provided : List (String × α)) : ((supply free provided).map (·.1)).Nodup := by
  refine h.sublist ?_
  clear h
  unfold supply
  induction free with
  | nil => exact List.Sublist.slnil
  | cons n free ih =>
    rw [List.filterMap_cons]
    cases provided? n provided with
    | none => exact ih.cons n
    | some v => exact ih.cons_cons n

namespace Quiet

/-- Nothing is tidied up. -/
theorem concluding {p : Eval Value} (h : Quiet 0 G p) :
    Quiet 0 G (Eval.concluding Tidying.nothing.apply p) := by
  have hreport : ∀ v, Quiet 0 G (MonadState.modifyGet fun b => ((), b.reportUncaught v)) := by
    refine fun v => adjust ?_ ?_ ?_
    all_goals exact fun a => by unfold Agent.reportUncaught; split <;> rfl
  exact h.seq Unit fun a => (after_concluding _ p a).imp id fun ⟨v, hv⟩ => ⟨_, hreport v, hv⟩

end Quiet

theorem Runs.createConstant (e : EnvironmentId) (p : String × Value) (a : Agent) :
    Runs 0 (Slots e [p.1]) (a.environments.Lacks e p.1) a (Eval.createConstant e p)
      fun _ b => b.environments.Binds e p.1 :=
  .createInitialized e p.1 rfl rfl (.pure p.2) a

namespace Machine.IsLawful

variable (h : m.IsLawful)

include h

/-- **A root is evaluated lawfully.** -/
theorem evaluateRoot (globals : EnvironmentId) (root : Root) :
    Quiet 0 G (m.evaluateRoot globals root) := by
  cases root with
  | expression e => exact Law.expression (h.obeys G) e
  | function f =>
    refine Quiet.bind (Law.record (L := quiet G) _) fun _ a => Runs.new fun e b => ?_
    refine (Law.declaredFunction (quiet _) f e).frame.bind fun v c _ => ?_
    cases f.name with
    | none => exact (Quiet.pure v).anywhere.given fun _ _ _ => trivial
    | some name =>
      refine ((Runs.createConstant e (name, v) c).weaken (Nat.le_refl 0) ?_).bind
        fun _ d _ => (Quiet.pure v).anywhere.given fun _ _ _ => trivial
      rintro - - ⟨⟨-, -, hlacks⟩, -, hs, hgrows⟩
      refine ⟨Environments.stable_lacks hgrows.lawful hs hgrows.spares not_false (hlacks name), ?_⟩
      exact fun _ _ _ hF _ => .inl hF.1

/-- **A root is loaded lawfully.** -/
theorem load (root : Root) (source : Source) (p : Provisions) :
    Quiet 0 G (m.loadTidying Tidying.nothing.apply root source p) := by
  unfold Machine.loadTidying
  cases hs : analyze ⟨root.isExpression, p.noVar⟩ root with
  | error r => exact Law.raise (L := quiet G) _ _
  | ok s =>
    -- The supplied names are distinct, so each constant is created where its name is missing.
    have hnodup := nodup_supply (nodup_free_of_analyze hs) p.values
    refine fun a => Runs.new fun e b => ?_
    refine (Law.report (L := quiet _) _).frame.bind fun _ c _ => ?_
    have hnames := Runs.forM (·.1) (fun _ => Environments.stable_lacks)
      (fun _ => Environments.stable_binds) (e := e) (l := supply s.free p.values)
      (fun x _ a => Runs.createConstant e x a) c
    refine (hnames.weaken (Nat.le_refl 0) ?_).bind fun _ d _ => ?_
    · rintro - - ⟨⟨-, -, hlacks⟩, -, hs, hgrows⟩
      refine ⟨⟨hnodup, fun x _ => ?_⟩, fun _ _ _ hF _ => .inl hF.1⟩
      exact Environments.stable_lacks hgrows.lawful hs hgrows.spares not_false (hlacks x.1)
    · refine (Quiet.bind ((quiet True).newRealm _ rfl) fun r => .concluding fun x =>
        .inContext (Q := fun _ _ => True) ?_).anywhere.given
        fun _ _ _ => trivial
      exact (h.evaluateRoot e root).roam _

theorem invoke (f : Value) (args : List Value) :
    Quiet 0 G (m.invokeTidying Tidying.nothing.apply f args) :=
  Quiet.bind (Law.callable (L := quiet G) f) fun _ =>
    .concluding (Law.call (h.obeys G) _ _ _)

/-- **What a host asks for is done lawfully.** -/
theorem answer (r : Request) : Quiet 0 G (r.answer m .nothing) := by
  cases r with
  | globals => exact Quiet.bind (Law.standardGlobals (quiet G)) fun _ => .pure _
  | load p => exact Quiet.get.bind fun _ => (h.load _ _ _).bind fun _ => .pure _
  | invoke f args => exact Quiet.get.bind fun _ => (h.invoke _ _).bind fun _ => .pure _
  | rest =>
    exact (Quiet.adjust (f := fun a => ((), a)) (fun _ => rfl) (fun _ => rfl) fun _ => rfl).bind
      fun _ => .pure _

end Machine.IsLawful

/-! ### Sessions -/

/-- The agent after a host has asked it for one thing after the other, until a computation was
stopped, and has not tidied it up. -/
def Machine.served (m : Machine) : List Request → Agent → Agent
  | [], a => a
  | r :: rest, a =>
    match r.answer m .nothing a with
    | .ok _ b | .error (.thrown _) b => m.served rest b
    | .error _ b => b

theorem Machine.served_cons (m : Machine) (r : Request) (rest : List Request) (a : Agent) :
    m.served (r :: rest) a = m.served rest ((r.answer m .nothing).after a) ∨
      m.served (r :: rest) a = (r.answer m .nothing).after a := by
  rw [Machine.served, Eval.after]
  cases r.answer m .nothing a with
  | ok x b => exact .inl rfl
  | error i b =>
    cases i with
    | thrown v => exact .inl rfl
    | exhausted | broken => exact .inr rfl

namespace Machine.IsLawful

variable (h : m.IsLawful) (requests : List Request)

include h

theorem kept_served (ho : (m.served requests a).IsOrderly) : a.IsOrderly := by
  induction requests generalizing a with
  | nil => exact ho
  | cons r rest ih =>
    refine (h.answer (G := True) r a).kept ?_
    rcases m.served_cons r rest a with heq | heq
    · exact ih (heq ▸ ho)
    · exact heq ▸ ho

/-- **What a host asks for, one thing after the other, is done lawfully.** -/
theorem served (hs : a.environments.IsSound) (ho : (m.served requests a).IsOrderly) :
    a.environments.Lawful (m.served requests a).environments := by
  induction requests generalizing a with
  | nil => exact .refl _
  | cons r rest ih =>
    have hfirst := fun ho => ((h.answer r a).grows ho hs trivial).lawful
    rcases m.served_cons r rest a with heq | heq
    all_goals rw [heq] at ho ⊢
    · have hfirst := hfirst (h.kept_served rest ho)
      exact hfirst.trans (ih (hfirst.isSound hs) ho)
    · exact hfirst ho

end Machine.IsLawful

/-! ### Functions that are written in roots -/

variable {φ : RealmId → Filing} {ρ : World} {K : Stack φ} {k : Nat}

/-- No function that is written in a root on file declares a name twice. -/
def DeclareOnce (φ : RealmId → Filing) : Prop :=
  ∀ r, ∀ f ∈ (φ r).root.functions (φ r).rules, f.declaresOnce = true

/-- The functions that there are are written in roots on file. -/
theorem Agrees.isOrderly {b : Agent} (h : Agrees ρ K a b) (honce : DeclareOnce φ) :
    a.IsOrderly := by
  intro o f hf
  unfold Object.code? at hf
  cases hkind : (a.object o).kind with
  | closure c =>
    rw [hkind] at hf
    cases hf
    obtain ⟨d, hc⟩ := h.closure_rel hkind
    have hwritten := hc.isWritten
    rw [h.filing] at hwritten
    exact honce _ _ hwritten
  | _ => rw [hkind] at hf; cases hf

/-- **All functions are written in roots on file**, also when a computation was stopped. -/
theorem Machine.Agree.served (h : m.Agree φ m) {requests : List Request}
    (hφ : ∀ i f, (requests.filterMap (·.filing?))[i]? = some f → φ ⟨k + i⟩ = f)
    (hab : Agrees ρ (Stack.idle φ k) a a) (honce : DeclareOnce φ) :
    (m.served requests a).IsOrderly := by
  -- On the requests: after every answer the agent agrees with itself, which is what being orderly is
  -- read off.
  induction requests generalizing ρ k a with
  | nil => exact hab.isOrderly honce
  | cons r rest ih =>
    obtain ⟨hhead, htail⟩ := filed_cons hφ
    have hanswer := r.answered h hab hhead .nothing .nothing
    rw [Machine.served]
    cases ho : r.answer m .nothing a with
    | ok x b =>
      rw [ho] at hanswer
      cases hanswer with
      | ok hagree => exact ih htail hagree
    | error i b =>
      rw [ho] at hanswer
      cases hanswer with
      | thrown hagree => exact ih htail hagree
      | exhausted hagree => exact hagree.isOrderly honce

/-! ### The lives of variables -/

/-- No function that is written in the root declares a name twice. -/
def Program.declaresOnce (p : Program) : Bool :=
  (p.root.functions ⟨p.root.isExpression, p.provisions.noVar⟩).all (·.declaresOnce)

/-- The program of the text of a function, if it can be read and the grammar allows it. -/
def Program.ofText? (text : String) : Option Program :=
  let source := Source.ofString text
  match source.function false with
  | .error _ => none
  | .ok f =>
    if h : (Root.function f).isGrammatical ⟨false, false⟩ = true then
      some ⟨.function f, source, ⟨[], false, false⟩, h⟩
    else none

section

variable {e : EnvironmentId} {name : String} {v : Variable}

/-- **A variable without value cannot be read.** -/
theorem throws_readVariable (h : a.environments.Awaits e name) :
    Throws (readVariable e name) .referenceError a := by
  obtain ⟨v, hv, hvalue⟩ := h
  obtain ⟨x, hx, hname⟩ := Environments.get?_of_find? hv
  have happly : readVariable e name a
      = raise .referenceError ("Cannot access '" ++ name ++ "' before initialization") a := by
    unfold readVariable
    rw [bind_ok (environmentAt_apply hx), hname, Option.bind_some, hvalue]
  unfold Throws
  rw [happly]
  exact throws_raise _ _ a

/-- **A variable without value cannot be assigned to, nor can a constant.** -/
theorem throws_writeReference (m : Machine) (h : a.environments.find? e name = some v)
    (hv : v.value = none ∨ v.isMutable = false) (value : Value) :
    Throws (m.writeReference (.variable e name) value)
      (if v.value.isNone then .referenceError else .typeError) a := by
  obtain ⟨x, hx, hname⟩ := Environments.get?_of_find? h
  have happly : m.writeReference (.variable e name) value a
      = raise (if v.value.isNone then .referenceError else .typeError)
          (if v.value.isNone then "Cannot access '" ++ name ++ "' before initialization"
            else "Assignment to constant variable '" ++ name ++ "'") a := by
    change writeVariable e name value true a = _
    unfold writeVariable
    rw [bind_ok (environmentAt_apply hx), hname]
    dsimp only
    cases hvalue : v.value with
    | none => rfl
    | some w =>
      rw [hv.resolve_left (by rw [hvalue]; nofun)]
      rfl
  unfold Throws
  rw [happly]
  exact throws_raise _ _ a

end

theorem Environments.isSound_empty : Environments.empty.IsSound where
  tidy := isTidy_empty
  lasting := fun e name v hv => by
    obtain ⟨x, hx, -⟩ := get?_of_find? hv
    simp [get?, empty] at hx

theorem Machine.served_append (m : Machine) (requests later : List Request) (a : Agent) :
    m.served (requests ++ later) a = m.served later (m.served requests a) ∨
      m.served (requests ++ later) a = m.served requests a := by
  induction requests generalizing a with
  | nil => exact .inl rfl
  | cons r rest ih =>
    rw [List.cons_append, Machine.served, Machine.served]
    cases r.answer m .nothing a with
    | ok x b => exact ih b
    | error i b =>
      cases i with
      | thrown v => exact ih b
      | exhausted | broken => exact .inr rfl

theorem declareOnce_onFile {requests : List Request}
    (h : ∀ p, .load p ∈ requests → p.declaresOnce = true) : DeclareOnce (onFile requests) := by
  refine onFile_spec (P := fun φ => ∀ f ∈ φ.root.functions φ.rules, f.declaresOnce = true)
    (fun f hf => absurd hf List.not_mem_nil) fun p _ hp _ f hf => ?_
  exact List.all_eq_true.mp (h p hp) f hf

section Lives

variable (n : Nat) (isVerbose : Bool) (requests later : List Request)

/-- What an agent that had nothing has come to in a session. -/
def Agent.ofSession : Agent := (Machine.ofDepth n).served requests (.new isVerbose)

variable {n isVerbose requests later}

/-- **No function declares a name twice** in a session whose roots do not do so. -/
theorem isOrderly_ofSession (h : ∀ p, .load p ∈ requests → p.declaresOnce = true) :
    (Agent.ofSession n isVerbose requests).IsOrderly :=
  (Machine.agree_ofDepth n).served (fun _ _ => onFile_eq) (agrees_new (onFile requests) isVerbose)
    (declareOnce_onFile h)

theorem lawful_ofSession (h : (Agent.ofSession n isVerbose requests).IsOrderly) :
    Environments.empty.Lawful (Agent.ofSession n isVerbose requests).environments :=
  (Machine.isLawful_ofDepth n).served requests Environments.isSound_empty h

/-- **What comes later in a session comes of what was there** by operations in their places. -/
theorem lawful_later (h : (Agent.ofSession n isVerbose (requests ++ later)).IsOrderly) :
    (Agent.ofSession n isVerbose requests).IsOrderly ∧
      (Agent.ofSession n isVerbose requests).environments.Lawful
        (Agent.ofSession n isVerbose (requests ++ later)).environments := by
  have hm := Machine.isLawful_ofDepth n
  unfold Agent.ofSession at h ⊢
  rcases (Machine.ofDepth n).served_append requests later (.new isVerbose) with heq | heq
  all_goals rw [heq] at h ⊢
  · have horderly := hm.kept_served later h
    have hlawful := hm.served requests Environments.isSound_empty horderly
    exact ⟨horderly, hm.served later (hlawful.isSound Environments.isSound_empty) h⟩
  · exact ⟨h, .refl _⟩

variable (n isVerbose requests later)

/-- **The lives of variables.**  If no function declares a name twice, then all environments of a
session come about by operations in their places: a variable is created without value, is given one
once, and is assigned to only then and only if it changes.  So a variable that is there stays there,
with a value if it has one, and with the same one if it is a constant.  Until it has one, reading it
throws, and assigning to a constant throws always; the environments stay as they are. -/
theorem variable_lives (h : ∀ p, .load p ∈ requests ++ later → p.declaresOnce = true) :
    Environments.empty.Lawful (Agent.ofSession n isVerbose requests).environments ∧
    (Agent.ofSession n isVerbose requests).environments.Lawful
      (Agent.ofSession n isVerbose (requests ++ later)).environments ∧
    (∀ e name v, (Agent.ofSession n isVerbose requests).environments.find? e name = some v →
      ∃ w, (Agent.ofSession n isVerbose (requests ++ later)).environments.find? e name = some w ∧
        v.Becomes w) ∧
    (∀ (a : Agent) e name, a.environments.Awaits e name →
      (readVariable e name).Throws .referenceError a) ∧
    ∀ (m : Machine) (a : Agent) e name v value, a.environments.find? e name = some v →
      v.isMutable = false → ∃ kind, (m.writeReference (.variable e name) value).Throws kind a := by
  -- Being orderly at the end, when all functions made are there, is enough for every earlier moment.
  have horderly : (Agent.ofSession n isVerbose (requests ++ later)).IsOrderly :=
    isOrderly_ofSession h
  obtain ⟨hbefore, hlater⟩ := lawful_later horderly
  have hlawful := lawful_ofSession hbefore
  have hsound := hlawful.isSound Environments.isSound_empty
  refine ⟨hlawful, hlater, fun e name v hv => hlater.becomes hsound hv, ?_, ?_⟩
  · exact fun a e name hawaits => throws_readVariable hawaits
  · exact fun m a e name v value hv hconstant => ⟨_, throws_writeReference m hv (.inr hconstant) value⟩

/-- A closure that knows a constant before the constant has its value. -/
theorem variable_lives_closure : ∃ p,
    Program.ofText? "function f(n) \x7b const g = () => a; const a = n; return g() \x7d" = some p ∧
    p.declaresOnce = true ∧
    (Agent.ofSession 100 false [.load p]).environments.Lawful
      (Agent.ofSession 100 false [.load p, .invoke (.object ⟨0⟩) [.null]]).environments := by
  have hread : (Program.ofText? "function f(n) \x7b const g = () => a; const a = n; return g() \x7d").any
    (·.declaresOnce) = true := by decide +kernel
  obtain ⟨p, hp, honce⟩ := (Option.any_eq_true ..).mp hread
  refine ⟨p, hp, honce, (variable_lives 100 false [.load p] [.invoke (.object ⟨0⟩) [.null]] ?_).2.1⟩
  intro q hq
  rcases List.mem_cons.mp hq with hq | hq
  · cases hq
    exact honce
  · cases List.mem_singleton.mp hq

/-- Whether the answer is the given truth value. -/
def Answer.isBoolean (b : Bool) : Answer → Bool
  | .returned [.boolean c] _ => c == b
  | _ => false

/-- **A constant that is declared twice has two values**: the function compares what a closure reads
before the second declaration with what it reads after it. -/
theorem constant_changes : ∃ p, Program.ofText?
      ("function f() \x7b const a = true; const g = () => a; " ++
        "const x = g(); const a = false; return x === g() \x7d") = some p ∧
    p.filing?.isSome = true ∧ p.declaresOnce = false ∧
    ∃ x ∈ serve (.ofDepth 100) [(.load p, .nothing), (.invoke (.object ⟨0⟩) [], .nothing)] (.new false),
      x.isBoolean false = true := by
  have hread : (Program.ofText?
      ("function f() \x7b const a = true; const g = () => a; " ++
        "const x = g(); const a = false; return x === g() \x7d")).any (fun p =>
      p.filing?.isSome && !p.declaresOnce &&
        (serve (.ofDepth 100) [(.load p, .nothing), (.invoke (.object ⟨0⟩) [], .nothing)]
          (.new false)).any (·.isBoolean false)) = true := by decide +kernel
  obtain ⟨p, hp, hcalled⟩ := (Option.any_eq_true ..).mp hread
  rw [Bool.and_eq_true, Bool.and_eq_true, Bool.not_eq_true', List.any_eq_true] at hcalled
  exact ⟨p, hp, hcalled.1.1, hcalled.1.2, hcalled.2⟩

end Lives

end Scriptlet
