import Scriptlet.Proofs.Renewals
import Scriptlet.Proofs.SecuringMachines

/-!
# Rounds of counting loops

A counting loop evaluates its head, and then its condition, its body and its update round after round.
What is evaluated, in which environment, and what comes of it is written down here as rules, one for each
way in which a part may end; and the loop as it is evaluated follows them.

## Main definitions

* `Machine.InRound` — a part of a round, and what comes of it.
* `Agent.Advances` — from one round to the next.
* `Machine.Turns`, `Machine.Iterates`, `Machine.Goes` — a round, several of them, and the whole loop.
* `Machine.IsOrdered` — computations that do not leave the round that they are evaluated in.

## Main results

* `Agent.IsTurning.advances` — the next round begins, or a name has no value.
* `Agent.IsTurning.turns` — **a round goes as it should**; all of them do by `Agent.IsTurning.iterates`.
* `Agent.IsTurning.goes` — **a counting loop goes as it should** once its environment is there.
* `Machine.Goes.shared` — without names to be copied, all rounds are in one environment.
-/

namespace Scriptlet

open Eval

/-! ### What is evaluated in a round -/

/-- A computation of machines of the given height that is part of a round, and what comes of it.  It is
evaluated in the environment of the round.  The names of the loop stand for variables in the given
environments, before and after it; and the environments of earlier rounds are left as they are unless
closures that are inside them change them. -/
structure Machine.InRound {α : Type} (n : Nat) (names : List String)
    (place : String → EnvironmentId → EnvironmentId) (past : List EnvironmentId) (e : EnvironmentId)
    (p : Machine → Eval α) (a : Agent) (r : EStateM.Result Interrupt Agent α) : Prop where
  result : p (.ofDepth n) a = r
  here : a.places.head? = some e
  resolves : ∀ name ∈ names, resolve name a = .ok (.variable (place name e) name) a
  stays : ∀ name ∈ names, resolve name ((p (.ofDepth n)).after a)
    = .ok (.variable (place name e) name) ((p (.ofDepth n)).after a)
  apart : ∀ i ∈ past, a.IsApart i
  leaves : ∀ i ∈ past, Machine.Writes p n i a ∨ (p (.ofDepth n)).Leaves i a

/-- A computation of machines that leaves the links and the contexts, and that leaves environments
unless it is stopped. -/
structure Machine.IsOrdered {α : Type} (p : Machine → Eval α) (n : Nat) : Prop where
  links : Linking (p (.ofDepth n))
  names : ∀ i, Naming i (p (.ofDepth n))
  evolves : Evolving (p (.ofDepth n))
  follows : ∀ i, Stopping.breaking.Follows (p (.securing i n)) (p (.ofDepth n))
  secures : ∀ {i x}, (Machine.securing i n).IsSecuring i x → Securing i x (p (.securing i n))

/-- Evaluates the head of a counting loop. -/
def Machine.startLoop (m : Machine) (d : VarDecl) : Eval Unit := do
  record (.evaluate "VariableDeclaration" d.span)
  m.declaration d

namespace Machine.IsOrdered

variable (n : Nat)

theorem holds (test : Option Expr) : IsOrdered (fun m => m.holds test) n where
  links := Law.holds (GeneralLaw.obeys (linking.ofDepth n)) test
  names i := Law.holds (GeneralLaw.obeys ((naming i).ofDepth n)) test
  evolves := Law.holds (GeneralLaw.obeys (evolution.ofDepth n)) test
  follows i := (isBelow_securing i n).holds test
  secures h := Law.holds h.obeys test

theorem effect (update : Option Expr) : IsOrdered (fun m => m.effect update) n where
  links := Law.effect (GeneralLaw.obeys (linking.ofDepth n)) update
  names i := Law.effect (GeneralLaw.obeys ((naming i).ofDepth n)) update
  evolves := Law.effect (GeneralLaw.obeys (evolution.ofDepth n)) update
  follows i := (isBelow_securing i n).effect update
  secures h := Law.effect h.obeys update

theorem statement (s : Stmt) : IsOrdered (fun m => m.run (.statement s)) n where
  links := links_run n _
  names := names_run n _
  evolves := evolves_run n _
  follows i := (isBelow_securing i n).run _
  secures h := h.statement s

theorem startLoop (d : VarDecl) : IsOrdered (·.startLoop d) n where
  links := Linking.bind (Law.record (L := linking.toLaw) _) fun _ =>
    GeneralLaw.declaration (linking.ofDepth n) d
  names i := Naming.bind (Law.record (L := (naming i).toLaw) _) fun _ =>
    GeneralLaw.declaration ((naming i).ofDepth n) d
  evolves := Evolving.bind (Law.record (L := evolution.toLaw) _) fun _ =>
    GeneralLaw.declaration (evolution.ofDepth n) d
  follows i := .bind (.refl (Law.record _)) fun _ => (isBelow_securing i n).declaration d
  secures h := .bind (Law.record (L := Scriptlet.securing _ _) _) fun _ => h.declaration d

end Machine.IsOrdered

section

variable {α : Type} {n : Nat} {p : Machine → Eval α} {a : Agent} {names : List String}
  {place : String → EnvironmentId → EnvironmentId} {past : List EnvironmentId} {e : EnvironmentId}
  {home : Option EnvironmentId}

namespace Agent.IsInRound

variable (h : a.IsInRound names place past e) (hp : Machine.IsOrdered p n)

include h hp

theorem after : ((p (.ofDepth n)).after a).IsInRound names place past e :=
  h.of_links (hp.links a) (fun i => hp.names i a) (hp.evolves a).contexts

theorem inRound : Machine.InRound n names place past e p a (p (.ofDepth n) a) where
  result := rfl
  here := h.here
  resolves _ := h.resolves
  stays _ := (h.after hp).resolves
  apart i hi := (h.past i hi).1
  leaves i hi := (h.past i hi).1.leaves (hp.follows i) hp.secures

end Agent.IsInRound

theorem Agent.IsEnclosed.after (h : a.IsEnclosed home e)
    (hp : Machine.IsOrdered p n) : ((p (.ofDepth n)).after a).IsEnclosed home e :=
  h.of_links (hp.links a) (hp.evolves a).contexts

end

/-! ### One round after the other -/

/-- Between two rounds the environment is renewed, if there are names to be copied. -/
inductive Agent.Advances (renewed : List String) (past : List EnvironmentId) (e : EnvironmentId)
    (a : Agent) : List EnvironmentId → EnvironmentId → Agent → Prop
  | stay (hnone : renewed = []) : Advances renewed past e a past e a
  | renew {next : EnvironmentId} {b : Agent} (hsome : renewed ≠ []) (hnext : a.Renews renewed e next b) :
    Advances renewed past e a (e :: past) next b

/-- **One round of a counting loop** from where its condition is about to be evaluated, with the value so
far.  What comes of it is said together with the environments of earlier rounds, and that in which it
ends. -/
inductive Machine.Turns (n : Nat) (names : List String)
    (place : String → EnvironmentId → EnvironmentId) (renewed : List String) (test update : Option Expr)
    (body : Stmt) (past : List EnvironmentId) (e : EnvironmentId) (v : Value) (a : Agent) : List EnvironmentId →
      EnvironmentId → EStateM.Result Interrupt Agent (Sum Value Completion) → Prop
  /-- The condition fails. -/
  | test {i b} (htest : InRound n names place past e (·.holds test) a (.error i b)) :
    Turns n names place renewed test update body past e v a past e (.error i b)
  /-- The condition does not hold. -/
  | finish {b} (htest : InRound n names place past e (·.holds test) a (.ok false b)) :
    Turns n names place renewed test update body past e v a past e (.ok (.inr (.normal v)) b)
  /-- The body fails. -/
  | body {b i c} (htest : InRound n names place past e (·.holds test) a (.ok true b))
    (hbody : InRound n names place past e (·.run (.statement body)) b (.error i c)) :
    Turns n names place renewed test update body past e v a past e (.error i c)
  /-- The body leaves the loop. -/
  | leave {b x c y} (htest : InRound n names place past e (·.holds test) a (.ok true b))
    (hbody : InRound n names place past e (·.run (.statement body)) b (.ok x c))
    (hleave : afterRound x v = .inr y) :
    Turns n names place renewed test update body past e v a past e (.ok (.inr y) c)
  /-- There is no next round, as a name has no value. -/
  | missing {b x c w i d} (htest : InRound n names place past e (·.holds test) a (.ok true b))
    (hbody : InRound n names place past e (·.run (.statement body)) b (.ok x c))
    (hgoes : afterRound x v = .inl w)
    (hmissing : ∃ name ∈ renewed, (c.environments.find? e name).bind (·.value) = none)
    (hfails : renewEnvironment renewed c = .error i d) :
    Turns n names place renewed test update body past e v a past e (.error i d)
  /-- The step to the next round fails. -/
  | update {b x c w past' next d i f} (htest : InRound n names place past e (·.holds test) a (.ok true b))
    (hbody : InRound n names place past e (·.run (.statement body)) b (.ok x c))
    (hgoes : afterRound x v = .inl w) (hnext : c.Advances renewed past e past' next d)
    (hupdate : InRound n names place past' next (·.effect update) d (.error i f)) :
    Turns n names place renewed test update body past e v a past' next (.error i f)
  /-- The next round follows. -/
  | next {b x c w past' next d f} (htest : InRound n names place past e (·.holds test) a (.ok true b))
    (hbody : InRound n names place past e (·.run (.statement body)) b (.ok x c))
    (hgoes : afterRound x v = .inl w) (hnext : c.Advances renewed past e past' next d)
    (hupdate : InRound n names place past' next (·.effect update) d (.ok () f)) :
    Turns n names place renewed test update body past e v a past' next (.ok (.inl w) f)

/-- **The rounds of a counting loop** from one whose condition is about to be evaluated, in at most the
given number of rounds, with the value so far.  What comes of them is said together with the environments
of earlier rounds, and that in which the loop ends. -/
inductive Machine.Iterates (n : Nat) (names : List String)
    (place : String → EnvironmentId → EnvironmentId) (renewed : List String) (test update : Option Expr)
    (body : Stmt) : List EnvironmentId → EnvironmentId → Nat → Value → Agent → List EnvironmentId →
      EnvironmentId → EStateM.Result Interrupt Agent Completion → Prop
  | exhausted {past e v a} :
    Iterates n names place renewed test update body past e 0 v a past e (.error .exhausted a)
  | fail {past e k v a past' e' i b}
    (hturn : Turns n names place renewed test update body past e v a past' e' (.error i b)) :
    Iterates n names place renewed test update body past e (k + 1) v a past' e' (.error i b)
  | last {past e k v a past' e' x b}
    (hturn : Turns n names place renewed test update body past e v a past' e' (.ok (.inr x) b)) :
    Iterates n names place renewed test update body past e (k + 1) v a past' e' (.ok x b)
  | round {past e k v a past' e' w b past'' e'' r}
    (hturn : Turns n names place renewed test update body past e v a past' e' (.ok (.inl w) b))
    (hrest : Iterates n names place renewed test update body past' e' k w b past'' e'' r) :
    Iterates n names place renewed test update body past e (k + 1) v a past'' e'' r

/-- **The head of a counting loop and its rounds**, in the given environment.  What comes of them is said
together with the environments of earlier rounds, and that in which the loop ends. -/
inductive Machine.Goes (n : Nat) (names : List String) (place : String → EnvironmentId → EnvironmentId)
    (renewed : List String) (d : VarDecl) (test update : Option Expr) (body : Stmt) (e : EnvironmentId)
    (a : Agent) : List EnvironmentId → EnvironmentId → EStateM.Result Interrupt Agent Completion → Prop
  /-- The head fails. -/
  | head {i b} (hhead : InRound n names place [] e (·.startLoop d) a (.error i b)) :
    Goes n names place renewed d test update body e a [] e (.error i b)
  /-- There is no first round, as a name has no value. -/
  | missing {b i c} (hhead : InRound n names place [] e (·.startLoop d) a (.ok () b))
    (hmissing : ∃ name ∈ renewed, (b.environments.find? e name).bind (·.value) = none)
    (hfails : renewEnvironment renewed b = .error i c) :
    Goes n names place renewed d test update body e a [] e (.error i c)
  | rounds {b past next c past' e' r} (hhead : InRound n names place [] e (·.startLoop d) a (.ok () b))
    (hnext : b.Advances renewed [] e past next c)
    (hrounds : Iterates n names place renewed test update body past next n .undefined c past' e' r) :
    Goes n names place renewed d test update body e a past' e' r

section

variable {n : Nat} {names : List String} {place : String → EnvironmentId → EnvironmentId} {d : VarDecl}
  {test update : Option Expr} {body : Stmt} {past past' : List EnvironmentId} {e e' : EnvironmentId}
  {a : Agent} {v : Value}

/-! #### Without names to be copied, all rounds are in one environment -/

theorem Agent.Advances.shared {b : Agent} (h : a.Advances [] past e past' e' b) :
    past' = past ∧ e' = e := by
  cases h with
  | stay => exact ⟨rfl, rfl⟩
  | renew hsome => exact absurd rfl hsome

namespace Machine

theorem Turns.shared {r : EStateM.Result Interrupt Agent (Sum Value Completion)}
    (h : Turns n names place [] test update body past e v a past' e' r) : past' = past ∧ e' = e := by
  cases h with
  | test | finish | body | leave | missing => exact ⟨rfl, rfl⟩
  | update _ _ _ hnext | next _ _ _ hnext => exact hnext.shared

theorem Iterates.shared {k : Nat} {r : EStateM.Result Interrupt Agent Completion}
    (h : Iterates n names place [] test update body past e k v a past' e' r) :
    past' = past ∧ e' = e := by
  induction h with
  | exhausted => exact ⟨rfl, rfl⟩
  | fail hturn | last hturn => exact hturn.shared
  | round hturn _ ih =>
    obtain ⟨rfl, rfl⟩ := hturn.shared
    exact ih

theorem Goes.shared {r : EStateM.Result Interrupt Agent Completion}
    (h : Goes n names place [] d test update body e a past' e' r) : past' = [] ∧ e' = e := by
  cases h with
  | head | missing => exact ⟨rfl, rfl⟩
  | rounds _ hnext hrounds =>
    obtain ⟨rfl, rfl⟩ := hnext.shared
    exact hrounds.shared

end Machine

end

/-- What a round of a counting loop ends with: the step to the next round, if there is one. -/
def Machine.onwards (m : Machine) (renewed : List String) (update : Option Expr) :
    Sum Value Completion → Eval (Sum Value Completion)
  | .inr c => return .inr c
  | .inl v => do
    renewEnvironment renewed
    m.effect update
    return .inl v

/-- One round of a counting loop. -/
def Machine.roundOf (m : Machine) (renewed : List String) (test update : Option Expr) (body : Stmt)
    (v : Value) : Eval (Sum Value Completion) := do
  if ← m.holds test then m.onwards renewed update (afterRound (← m.run (.statement body)) v)
  else return .inr (.normal v)

theorem Machine.rounds_eq (m : Machine) (renewed : List String) (test update : Option Expr) (body : Stmt) :
    m.rounds renewed test update body = renewEnvironment renewed >>= fun _ =>
      iterate (m.roundOf renewed test update body) m.fuel .undefined := rfl

/-- The agent is in a round of a loop, and can begin the next one if names are to be copied.  If the loop
is in an environment of its own, that one is inside the given one. -/
structure Agent.IsTurning (a : Agent) (names : List String)
    (place : String → EnvironmentId → EnvironmentId) (renewed : List String) (home : Option EnvironmentId)
    (past : List EnvironmentId) (e : EnvironmentId) : Prop extends a.IsInRound names place past e where
  enclosed : ∀ o, home = some o → a.IsEnclosed (some o) e
  renewable : renewed = [] ∨ renewed = names ∧ (∀ name i, place name i = i) ∧ ∃ o, home = some o

namespace Agent.IsTurning

variable {α : Type} {n : Nat} {a b : Agent} {names renewed : List String}
  {place : String → EnvironmentId → EnvironmentId} {past : List EnvironmentId} {e : EnvironmentId}
  {home : Option EnvironmentId} (h : a.IsTurning names place renewed home past e)

include h in
theorem after {p : Machine → Eval α} (hp : Machine.IsOrdered p n) :
    ((p (.ofDepth n)).after a).IsTurning names place renewed home past e where
  toIsInRound := h.toIsInRound.after hp
  enclosed o ho := (h.enclosed o ho).after hp
  renewable := h.renewable

include h in
theorem after_eq {p : Machine → Eval α} (hp : Machine.IsOrdered p n)
    (hb : (p (.ofDepth n)).after a = b) : b.IsTurning names place renewed home past e := hb ▸ h.after hp

include h in
/-- **The next round begins**, or there is none as a name has no value. -/
theorem advances :
    (∃ i b, renewEnvironment renewed a = .error i b ∧
      (∃ name ∈ renewed, (a.environments.find? e name).bind (·.value) = none) ∧
      b.IsTurning names place renewed home past e) ∨
    ∃ past' next b, renewEnvironment renewed a = .ok () b ∧ a.Advances renewed past e past' next b ∧
      b.IsTurning names place renewed home past' next := by
  have hlinks : a.Links ((renewEnvironment renewed).after a) := linking.renewEnvironment renewed a
  have hnames := fun i => (naming i).renewEnvironment renewed a
  by_cases hnone : renewed = []
  · subst hnone
    exact .inr ⟨past, e, a, rfl, .stay rfl, h⟩
  · obtain ⟨rfl, hplace, o, rfl⟩ := h.renewable.resolve_left hnone
    have henclosed := h.enclosed o rfl
    obtain ⟨x, hx, -⟩ := henclosed.record
    obtain ⟨c, rest, hc, rfl⟩ := contexts_of_places h.here
    obtain ⟨next, b, message, hfails, ⟨name, hname, hvalue⟩, hvacant, hbut⟩ | ⟨next, b, hb, hrenews⟩ :=
      renewEnvironment_cases h.tidy hc hx hnone
    · have hcontexts : b.contexts = a.contexts := by rw [hbut.rest]
      refine .inl ⟨_, _, hfails, ⟨name, hname, by rwa [Environments.find?_of_get? hx]⟩, ?_, ?_, h.renewable⟩
      all_goals rw [after_error hfails] at hlinks
      · exact h.of_links hlinks (after_error hfails ▸ hnames) hcontexts
      · exact fun o ho => (h.enclosed o ho).of_links hlinks hcontexts
    · rw [after_ok hb] at hlinks
      refine .inr ⟨_, next, b, hb, .renew hnone hrenews, ?_, fun o ho => ?_, h.renewable⟩
      · exact hrenews.isInRound henclosed h.here hlinks h.toIsInRound (hplace · next)
      · exact hrenews.isEnclosed (h.enclosed o ho) h.here hlinks

variable (test update : Option Expr) (body : Stmt) (v : Value)

/-- The next round begins, after one with the given test and body. -/
theorem turns_onwards {w : Value} {b c : Agent} {x : Completion}
    (htest : Machine.InRound n names place past e (·.holds test) a (.ok true b))
    (hbody : Machine.InRound n names place past e (·.run (.statement body)) b (.ok x c))
    (hgoes : Machine.afterRound x v = .inl w) (h : c.IsTurning names place renewed home past e) :
    ∃ past' e', Machine.Turns n names place renewed test update body past e v a past' e'
        ((Machine.ofDepth n).onwards renewed update (.inl w) c) ∧
      (((Machine.ofDepth n).onwards renewed update (.inl w)).after c).IsTurning names place renewed home
        past' e' := by
  have heffect := Machine.IsOrdered.effect n update
  -- Renewing the names either fails, since one of them has no value, or gives the next round its
  -- record.
  obtain ⟨i, d, hfails, hmissing, h⟩ | ⟨past', next, d, hrenew, hnext, h⟩ := h.advances
  · have honwards : (Machine.ofDepth n).onwards renewed update (.inl w) c = .error i d := bind_error hfails
    rw [after_error honwards, honwards]
    exact ⟨past, e, .missing htest hbody hgoes hmissing hfails, h⟩
  · have honwards : (Machine.ofDepth n).onwards renewed update (.inl w) c
        = ((Machine.ofDepth n).effect update >>= fun _ => Pure.pure (.inl w)) d := bind_ok hrenew
    have hupdated := h.toIsInRound.inRound heffect
    cases hupdate : (Machine.ofDepth n).effect update d with
    | error i f =>
      rw [bind_error hupdate] at honwards
      rw [after_error honwards, honwards]
      rw [hupdate] at hupdated
      exact ⟨past', next, .update htest hbody hgoes hnext hupdated,
        h.after_eq heffect (after_error hupdate)⟩
    | ok x f =>
      rw [bind_ok hupdate] at honwards
      rw [after_ok honwards, honwards]
      rw [hupdate] at hupdated
      exact ⟨past', next, .next htest hbody hgoes hnext hupdated, h.after_eq heffect (after_ok hupdate)⟩

include h in
/-- **A round goes as it should.** -/
theorem turns : ∃ past' e', Machine.Turns n names place renewed test update body past e v a past' e'
      ((Machine.ofDepth n).roundOf renewed test update body v a) ∧
    (((Machine.ofDepth n).roundOf renewed test update body v).after a).IsTurning names place renewed home
      past' e' := by
  -- A round goes as far as the first of its parts that does not return.
  have hholds := Machine.IsOrdered.holds n test
  have hstatement := Machine.IsOrdered.statement n body
  have htested := h.toIsInRound.inRound hholds
  cases htest : (Machine.ofDepth n).holds test a with
  | error i b =>
    have hround : (Machine.ofDepth n).roundOf renewed test update body v a = .error i b :=
      bind_error htest
    rw [after_error hround, hround]
    rw [htest] at htested
    exact ⟨past, e, .test htested, h.after_eq hholds (after_error htest)⟩
  | ok x b =>
    rw [htest] at htested
    have h₁ := h.after_eq hholds (after_ok htest)
    cases x with
    | false =>
      have hround : (Machine.ofDepth n).roundOf renewed test update body v a = .ok (.inr (.normal v)) b :=
        bind_ok htest
      rw [after_ok hround, hround]
      exact ⟨past, e, .finish htested, h₁⟩
    | true =>
      have hround : (Machine.ofDepth n).roundOf renewed test update body v a
          = ((Machine.ofDepth n).run (.statement body) >>= fun x =>
            (Machine.ofDepth n).onwards renewed update (Machine.afterRound x v)) b := bind_ok htest
      have hran := h₁.toIsInRound.inRound hstatement
      cases hbody : (Machine.ofDepth n).run (.statement body) b with
      | error i c =>
        rw [bind_error hbody] at hround
        rw [after_error hround, hround]
        rw [hbody] at hran
        exact ⟨past, e, .body htested hran, h₁.after_eq hstatement (after_error hbody)⟩
      | ok x c =>
        rw [bind_ok hbody] at hround
        rw [hbody] at hran
        have h₂ := h₁.after_eq hstatement (after_ok hbody)
        cases hgoes : Machine.afterRound x v with
        | inr y =>
          rw [hgoes] at hround
          have honwards : (Machine.ofDepth n).onwards renewed update (.inr y) c = .ok (.inr y) c := rfl
          rw [honwards] at hround
          rw [after_ok hround, hround]
          exact ⟨past, e, .leave htested hran hgoes, h₂⟩
        | inl w =>
          rw [hgoes] at hround
          rw [after_congr hround, hround]
          exact turns_onwards test update body v htested hran hgoes h₂

include h in
/-- **The rounds of a counting loop go as they should.** -/
theorem iterates (k : Nat) : ∃ past' e',
    Machine.Iterates n names place renewed test update body past e k v a past' e'
      (iterate ((Machine.ofDepth n).roundOf renewed test update body) k v a) ∧
    ((iterate ((Machine.ofDepth n).roundOf renewed test update body) k v).after a).IsTurning names place renewed
      home past' e' := by
  -- Each round hands its environment on to the next one, as one more that is past.
  induction k generalizing past e v a with
  | zero => exact ⟨past, e, .exhausted, h⟩
  | succ k ih =>
    obtain ⟨past', e', hturn, h'⟩ := h.turns test update body v
    rw [iterate_succ]
    cases hround : (Machine.ofDepth n).roundOf renewed test update body v a with
    | error i b =>
      rw [hround] at hturn
      rw [after_error hround] at h'
      rw [after_error (bind_error hround), bind_error hround]
      exact ⟨past', e', .fail hturn, h'⟩
    | ok x b =>
      rw [hround] at hturn
      rw [after_ok hround] at h'
      rw [after_congr (bind_ok hround), bind_ok hround]
      cases x with
      | inr x => exact ⟨past', e', .last hturn, h'⟩
      | inl w =>
        obtain ⟨past'', e'', hrest, h''⟩ := ih h' w
        exact ⟨past'', e'', .round hturn hrest, h''⟩

include h in
/-- **A counting loop goes as it should** once its environment is there. -/
theorem goes (hpast : past = []) (d : VarDecl) : ∃ past' e',
    Machine.Goes n names place renewed d test update body e a past' e'
      (((Machine.ofDepth n).startLoop d >>= fun _ =>
        (Machine.ofDepth n).rounds renewed test update body) a) ∧
    (((Machine.ofDepth n).startLoop d >>= fun _ =>
      (Machine.ofDepth n).rounds renewed test update body).after a).IsTurning names place renewed home
      past' e' := by
  subst hpast
  have hordered := Machine.IsOrdered.startLoop n d
  have hstarted := h.toIsInRound.inRound hordered
  -- Until the head has run there is one record, that of the head, and no round has been made.
  cases hstart : (Machine.ofDepth n).startLoop d a with
  | error i b =>
    have hloop := bind_error (f := fun _ => (Machine.ofDepth n).rounds renewed test update body) hstart
    rw [after_error hloop, hloop]
    rw [hstart] at hstarted
    exact ⟨[], e, .head hstarted, h.after_eq hordered (after_error hstart)⟩
  | ok x b =>
    rw [hstart] at hstarted
    have hloop := bind_ok (f := fun _ => (Machine.ofDepth n).rounds renewed test update body) hstart
    rw [Machine.rounds_eq] at hloop
    obtain ⟨i, c, hfails, hmissing, h'⟩ | ⟨past, next, c, hrenew, hnext, h'⟩ :=
      (h.after_eq hordered (after_ok hstart)).advances
    · rw [bind_error hfails] at hloop
      rw [Machine.rounds_eq, after_error hloop, hloop]
      exact ⟨[], e, .missing hstarted hmissing hfails, h'⟩
    · rw [bind_ok hrenew] at hloop
      obtain ⟨past', e', hrounds, h''⟩ := h'.iterates test update body .undefined n
      rw [Machine.rounds_eq, after_congr hloop, hloop]
      exact ⟨past', e', .rounds hstarted hnext hrounds, h''⟩

end Agent.IsTurning

end Scriptlet
