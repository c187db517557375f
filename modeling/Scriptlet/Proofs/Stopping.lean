import Scriptlet.Proofs.GeneralLaws

/-!
# Stopped computations

A computation may be watched and stopped: when the stack of machines is at its end, or when it comes to
a state that somebody has been waiting for.  Up to there it does what the other one does that is not
watched.  And the state in which it is stopped is one that the other one passes: what no computation
takes back once it is so, is so in the end of the other one if it is in that state.

Which interrupts stop a computation in which states is left open; the other computations have to obey a
law that says what they do not take back.  The proof compares two machines of which the first one may be
stopped in its tasks, and goes through the definitions of the evaluation one by one.

## Main definitions

* `Stopping` — where computations may be stopped.
* `Stopping.Follows` — a computation does what another one does until it is stopped.
* `Stopping.IsBelow` — a machine does so with every task.

## Main results

* `Stopping.IsBelow.step` — **doing tasks with a machine below another one gives a machine below**.
* `Stopping.IsBelow.answer` — so does doing what a host asks for.
-/

namespace Scriptlet

open Eval

/-- Where computations may be stopped. -/
structure Stopping where
  /-- The law that computations obey. -/
  law : SessionLaw
  free : ¬law.CountsOnKeys
  settled : ∀ {α : Type} {p : Eval α}, law.Roams p → law.Holds p
  /-- Whether a computation may be stopped by an interrupt in the first agent that comes to the second
  one if it is not. -/
  Stops : Interrupt → Agent → Agent → Prop
  uncaught : ∀ {v : Value} {b c : Agent}, ¬Stops (.thrown v) b c
  later : ∀ {α : Type} {q : Eval α} {i : Interrupt} {b c : Agent}, law.Holds q → Stops i b c →
    Stops i b (q.after c)
  ending : ∀ {i : Interrupt} {b c : Agent} (f : Agent → Agent),
    (∀ a, (f a).objects = a.objects ∧ (f a).realms = a.realms) → Stops i b c → Stops i (f b) (f c)

namespace Stopping

variable {S : Stopping} {α β σ : Type} {p q : Eval α}

/-- The first computation does what the second one does, until it is stopped. -/
structure Follows (S : Stopping) (p q : Eval α) : Prop where
  holds : S.law.Holds q
  follows : ∀ a, (∃ i b, p a = .error i b ∧ S.Stops i b (q.after a)) ∨ q a = p a

/-- Loops may end after the first number of rounds instead of the second one. -/
def AllowsRounds (S : Stopping) (n l : Nat) : Prop :=
  n = l ∨ n ≤ l ∧ ∀ {α : Type} {q : Eval α}, S.law.Holds q → S.Follows (throw .exhausted) q

namespace Follows

@[grind ←]
theorem refl (h : S.law.Holds p) : S.Follows p p := ⟨h, fun _ => .inr rfl⟩

/-! #### Sequences, loops and handlers -/

/-- **One after the other.**  If the first computation is stopped, the other one goes on. -/
@[grind ←]
theorem bind {f g : α → Eval β} (h : S.Follows p q) (hfg : ∀ x, S.Follows (f x) (g x)) :
    S.Follows (p >>= f) (q >>= g) := by
  refine ⟨Law.bind _ h.holds fun x => (hfg x).holds, fun a => ?_⟩
  rcases h.follows a with ⟨i, b, hb, hstops⟩ | hq
  · refine .inl ⟨i, b, bind_error hb, ?_⟩
    rcases after_bind q g a with heq | ⟨x, -, heq⟩
    · exact heq ▸ hstops
    · exact heq ▸ S.later (hfg x).holds hstops
  · cases hp : p a with
    | ok x b =>
      rw [bind_ok hp, bind_ok (hq.trans hp), after, bind_ok (hq.trans hp)]
      exact (hfg x).follows b
    | error i b =>
      rw [bind_error hp, bind_error (hq.trans hp)]
      exact .inr rfl

/-- A loop whose rounds may be stopped, and that may end early. -/
theorem iterate {f g : σ → Eval (Sum σ α)} (h : ∀ s, S.Follows (f s) (g s)) {n l : Nat}
    (hn : S.AllowsRounds n l) (s : σ) : S.Follows (Eval.iterate f n s) (Eval.iterate g l s) := by
  induction n generalizing l s with
  | zero =>
    rcases hn with rfl | ⟨-, hexhausted⟩
    · exact refl (S.law.throw _)
    · exact hexhausted (Law.iterate _ (fun s => (h s).holds) l s)
  | succ n ih =>
    -- The other computation may have more rounds left; it has at least one.
    obtain ⟨l, rfl⟩ : ∃ k, l = k + 1 := by
      rcases hn with rfl | ⟨hle, -⟩
      · exact ⟨n, rfl⟩
      · exact Nat.exists_eq_add_of_le' (Nat.lt_of_lt_of_le n.succ_pos hle)
    rw [iterate_succ, iterate_succ]
    refine (h s).bind fun x => ?_
    cases x with
    | inl s =>
      refine ih ?_ s
      rcases hn with heq | ⟨hle, hexhausted⟩
      · exact .inl (Nat.succ.inj heq)
      · exact .inr ⟨Nat.le_of_succ_le_succ hle, hexhausted⟩
    | inr r => exact refl (S.law.pure r)

/-- A handler is run in both computations or in none: what stops a computation is not caught. -/
@[grind ←]
theorem catching {f g : Value → Eval α} (h : S.Follows p q) (hfg : ∀ v, S.Follows (f v) (g v)) :
    S.Follows (Eval.catching p f) (Eval.catching q g) := by
  refine ⟨S.law.catching h.holds fun v => (hfg v).holds, fun a => ?_⟩
  -- A stop is no thrown value, so the handler does not see it; the side that goes on stays stopped.
  rcases h.follows a with ⟨i, b, hb, hstops⟩ | hq
  · refine .inl ⟨i, b, ?_, ?_⟩
    · unfold Eval.catching
      rw [hb]
      cases i with
      | thrown v => exact absurd hstops S.uncaught
      | exhausted | broken => rfl
    · rcases after_catching q g a with heq | ⟨v, heq⟩
      · exact heq ▸ hstops
      · exact heq ▸ S.later (hfg v).holds hstops
  · unfold after Eval.catching
    rw [hq]
    cases p a with
    | ok x b => exact .inr rfl
    | error i b =>
      cases i with
      | thrown v => exact (hfg v).follows b
      | exhausted | broken => exact .inr rfl

/-- What is done afterwards is done by the other computation only if the first one has been
stopped. -/
@[grind ←]
theorem followedBy {p q r s : Eval Completion} (h : S.Follows p q) (hrs : S.Follows r s) :
    S.Follows (Eval.followedBy p r) (Eval.followedBy q s) := by
  refine ⟨S.law.followedBy h.holds hrs.holds, fun a => ?_⟩
  -- A stop throws no value, so nothing follows it; the side that goes on stays stopped.
  rcases h.follows a with ⟨i, b, hb, hstops⟩ | hq
  · refine .inl ⟨i, b, ?_, ?_⟩
    · unfold Eval.followedBy
      rw [hb]
      cases i with
      | thrown v => exact absurd hstops S.uncaught
      | exhausted | broken => rfl
    · rcases after_followedBy q s a with heq | heq
      · exact heq ▸ hstops
      · exact heq ▸ S.later hrs.holds hstops
  · rw [after_followedBy_eq]
    unfold Eval.followedBy
    rw [hq]
    cases p a with
    | ok x b =>
      dsimp only
      rcases hrs.follows b with ⟨i, c, hc, hstops⟩ | hs
      · exact .inl ⟨i, c, by rw [hc], hstops⟩
      · exact .inr (by rw [hs])
    | error i b =>
      cases i with
      | thrown v =>
        dsimp only
        rcases hrs.follows b with ⟨i, c, hc, hstops⟩ | hs
        · exact .inl ⟨i, c, by rw [hc], hstops⟩
        · exact .inr (by rw [hs])
      | exhausted | broken => exact .inr rfl

/-! #### Other environments and contexts -/

/-- What is done at the end of a computation is done as well if it is stopped. -/
theorem ending (h : S.Follows p q) (f : Agent → Agent)
    (hf : ∀ a, (f a).objects = a.objects ∧ (f a).realms = a.realms) (a : Agent) :
    (∃ i b, Eval.ending p f a = .error i b ∧ S.Stops i b ((Eval.ending q f).after a)) ∨
      Eval.ending q f a = Eval.ending p f a := by
  rw [after_ending]
  unfold Eval.ending
  rcases h.follows a with ⟨i, b, hb, hstops⟩ | hq
  · rw [hb]
    exact .inl ⟨i, f b, rfl, S.ending f hf hstops⟩
  · rw [hq]
    exact .inr rfl

/-- Going back to an environment changes no object and no realm. -/
theorem withEnvironmentOf_same (e : EnvironmentId) (a : Agent) :
    (withEnvironmentOf e a).objects = a.objects ∧ (withEnvironmentOf e a).realms = a.realms := by
  unfold withEnvironmentOf
  split <;> exact ⟨rfl, rfl⟩

/-- The environment that is left behind by a stopped computation is the one in which it began. -/
@[grind ←]
theorem inEnvironment (h : S.Follows p q) (e : EnvironmentId) :
    S.Follows (Eval.inEnvironment e p) (Eval.inEnvironment e q) := by
  refine ⟨S.law.inEnvironment e (S.law.roam h.holds), fun a => ?_⟩
  unfold Eval.inEnvironment
  cases ha : environment a with
  | error i b => exact .inr ((bind_error ha).trans (bind_error ha).symm)
  | ok old b =>
    rw [bind_ok ha, after, bind_ok ha]
    cases hb : setEnvironment e b with
    | error i c => exact .inr ((bind_error hb).trans (bind_error hb).symm)
    | ok u c =>
      rw [bind_ok hb, bind_ok hb]
      exact h.ending _ (withEnvironmentOf_same old) c

/-- The same of contexts. -/
@[grind ←]
theorem inContext (h : S.Follows p q) (c : Context) :
    S.Follows (Eval.inContext c p) (Eval.inContext c q) := by
  refine ⟨S.law.inContext c (S.law.roam h.holds), fun a => ?_⟩
  have hinner := h.ending (fun a => { a with contexts := a.contexts.tail }) (fun _ => ⟨rfl, rfl⟩)
    { a with contexts := c :: a.contexts }
  exact hinner

/-- The same of arrays that are being joined. -/
theorem joining (h : S.Follows p q) (o : ObjectId) :
    S.Follows (do
      modify fun a => { a with joining := o :: a.joining }
      Eval.ending p fun a => { a with joining := a.joining.erase o })
    (do
      modify fun a => { a with joining := o :: a.joining }
      Eval.ending q fun a => { a with joining := a.joining.erase o }) := by
  refine ⟨S.law.joining o h.holds, fun a => ?_⟩
  have hinner := h.ending (fun a => { a with joining := a.joining.erase o }) (fun _ => ⟨rfl, rfl⟩)
    { a with joining := o :: a.joining }
  exact hinner

/-- Tidying up changes no object and no realm. -/
theorem tidy_same (t : Tidying) (a : Agent) :
    (t.apply a).objects = a.objects ∧ (t.apply a).realms = a.realms := by
  cases t with
  | nothing | removal => exact ⟨rfl, rfl⟩
  | collection =>
    change a.collect.objects = _ ∧ a.collect.realms = _
    unfold Agent.collect
    split <;> exact ⟨rfl, rfl⟩

/-- The agent is tidied up even if a computation is stopped. -/
theorem concluding {p q : Eval Value} (t : Tidying) (h : S.Follows p q) :
    S.Follows (Eval.concluding t.apply p) (Eval.concluding t.apply q) := by
  refine ⟨S.law.concluding t h.holds, fun a => ?_⟩
  rcases h.follows a with ⟨i, b, hb, hstops⟩ | hq
  · refine .inl ⟨i, t.apply b, ?_, ?_⟩
    · unfold Eval.concluding
      rw [hb]
      cases i with
      | thrown v => exact absurd hstops S.uncaught
      | exhausted | broken => rfl
    · have htidied := S.ending t.apply (tidy_same t) hstops
      rcases after_concluding t.apply q a with heq | ⟨v, heq⟩
      · exact heq ▸ htidied
      · -- A report changes nothing that the law looks at.
        have hreport : S.law.Holds (modify fun b : Agent => b.reportUncaught v) :=
          S.law.adjust _ fun b => by
            dsimp only
            unfold Agent.reportUncaught
            split <;> exact ⟨rfl, rfl, rfl, rfl, rfl, rfl⟩
        exact heq ▸ S.later hreport htidied
  · unfold Eval.concluding
    rw [hq]
    exact .inr rfl

/-! #### Objects -/

/-- Only the conversion of a new length can be stopped. -/
theorem write {p q : Eval Bool} (h : S.Follows p q) (id : ObjectId) (k : PropertyKey) (v : Value) :
    S.Follows (do
      if k.isNamed "length" && (← object id).isArray then p
      else changeObject id (·.write k v) false)
    (do
      if k.isNamed "length" && (← object id).isArray then q
      else changeObject id (·.write k v) false) := by
  refine ⟨S.law.write id k v h.holds, fun a => ?_⟩
  have hbind : ∀ r : Eval Bool, (do
      if k.isNamed "length" && (← object id).isArray then r
      else changeObject id (·.write k v) false) a
      = (if k.isNamed "length" && (a.object id).isArray then r
        else changeObject id (·.write k v) false) a := fun _ => rfl
  -- Only the length of an array is written by the other task, which follows by assumption.
  rw [after, hbind, hbind]
  split
  · exact h.follows a
  · exact .inr rfl

/-- A walk over an array whose visits may be stopped. -/
@[grind ←]
theorem walkElements {f g : σ → Nat → Value → Eval (Sum σ Value)}
    (h : ∀ s i v, S.Follows (f s i v) (g s i v)) {finish : σ → Eval Value}
    (hfinish : ∀ s, S.law.Holds (finish s)) (id : ObjectId)
    (start : Nat) (s : σ) :
    S.Follows (Eval.walkElements id f finish start s) (Eval.walkElements id g finish start s) := by
  unfold Eval.walkElements
  refine bind (refl (Law.elementsOf id)) fun e => iterate (fun s => ?_) (.inl rfl) _
  refine bind (refl (Law.elementsOf id)) fun e' => ?_
  split
  · exact refl (Law.bind _ (hfinish _) fun _ => S.law.pure _)
  · split
    · exact refl (Law.bind _ (hfinish _) fun _ => S.law.pure _)
    · refine (h _ _ _).bind fun r => refl ?_
      split <;> exact S.law.pure _

end Follows

/-! ### What obeys the law -/

attribute [grind .] SessionLaw.newEnvironment SessionLaw.fills GeneralLaw.initializeReference
  GeneralLaw.blockEnvironment GeneralLaw.nestedEnvironment SessionLaw.bodyEnvironment

attribute [grind ←] Law.Fills.createVariable Law.Fills.initializeVariable Law.Fills.writeVariable

/-- As the law may not count on keys, every list of elements will do. -/
@[grind .]
theorem allocateArray (S : Stopping) (e : Elements Value) : S.law.Holds (allocateArray e) :=
  Law.allocateArray fun h => absurd h S.free

/-- The law holds of a computation even if that ends in another environment, such as going to one. -/
@[grind .]
theorem setEnvironment (S : Stopping) (e : EnvironmentId) : S.law.Holds (setEnvironment e) :=
  S.settled (S.law.setEnvironment e)

/-- So it does of putting a new environment in the place of the last one. -/
@[grind .]
theorem renewEnvironment (S : Stopping) (names : List String) : S.law.Holds (renewEnvironment names) :=
  S.settled (S.law.renewEnvironment names)

/-! ### Machines -/

/-- The first machine does every task as the second one does, until it is stopped. -/
structure IsBelow (S : Stopping) (m m' : Machine) : Prop where
  run : ∀ {α : Type} (t : Task α), S.Follows (m.run t) (m'.run t)
  fuel : S.AllowsRounds m.fuel m'.fuel

namespace IsBelow

variable {α : Type} {m m' : Machine} (h : S.IsBelow m m')

include h

attribute [grind ←] run

/-- The tasks of machines follow each other, and expressions are tasks. -/
@[grind ←]
theorem expression (e : Expr) : S.Follows (m.expression e) (m'.expression e) := h.run _

@[grind ←]
theorem name (place : Span) (name : String) :
    S.Follows (m.name place name) (m'.name place name) := h.run _

@[grind ←]
theorem call (f : ObjectId) (this : Value) (args : List Value) :
    S.Follows (m.call f this args) (m'.call f this args) := h.run _

/-- Expressions are evaluated from left to right until one of them is stopped. -/
@[grind ←]
theorem expressions (es : List Expr) : S.Follows (m.expressions es) (m'.expressions es) := by
  induction es with
  | nil => exact .refl (S.law.pure _)
  | cons e es ih =>
    unfold Machine.expressions
    grind -funext

/-! ### Conversions -/

section Conversions

variable (v w : Value) (o : ObjectId) (hint : Hint) (separator : Text)

/-- Only objects are converted by a task. -/
@[grind ←]
theorem toPrimitive : S.Follows (m.toPrimitive v hint) (m'.toPrimitive v hint) := by
  unfold Machine.toPrimitive
  grind -funext

/-- Numbers come of primitive values, without further tasks. -/
@[grind ←]
theorem toNumber : S.Follows (m.toNumber v) (m'.toNumber v) := by
  unfold Machine.toNumber
  grind -funext

@[grind ←]
theorem toText : S.Follows (m.toText v) (m'.toText v) := by
  unfold Machine.toText
  grind -funext

@[grind ←]
theorem toInteger : S.Follows (m.toInteger v) (m'.toInteger v) := by
  unfold Machine.toInteger
  grind -funext

/-- Lengths come of numbers. -/
@[grind ←]
theorem toLength : S.Follows (m.toLength v) (m'.toLength v) := by
  unfold Machine.toLength
  grind -funext

/-- Keys come of primitive values. -/
@[grind ←]
theorem toKey : S.Follows (m.toKey v) (m'.toKey v) := by
  unfold Machine.toKey
  grind -funext

/-- The rounds of joining are as many in both machines: their number is that of the elements. -/
@[grind ←]
theorem join : S.Follows (m.join o separator) (m'.join o separator) := by
  have hnext : ∀ length j, S.Follows (m.joinNext o separator length j)
      (m'.joinNext o separator length j) := by
    intro length j
    unfold Machine.joinNext
    grind -funext
  have hloop : ∀ length j, S.Follows (iterate (m.joinNext o separator length) (length + 1) j)
      (iterate (m'.joinNext o separator length) (length + 1) j) := fun length j =>
    .iterate (hnext length) (.inl rfl) j
  have helements : S.Follows (m.joinElements o separator) (m'.joinElements o separator) := by
    unfold Machine.joinElements
    grind -funext
  have hjoining := helements.joining o
  unfold Machine.join
  grind -funext

/-- Both parts of an error's text are conversions. -/
@[grind ←]
theorem errorText : S.Follows (m.errorText o) (m'.errorText o) := by
  unfold Machine.errorText Machine.errorPart
  grind -funext

/-- Looking for the method is the same in both machines; calling it is a task. -/
@[grind ←]
theorem convertedBy (name : String) :
    S.Follows (m.convertedBy o name) (m'.convertedBy o name) := by
  unfold Machine.convertedBy
  refine .bind (.refl (by grind -funext)) fun x => ?_
  cases x.ownValue? name with
  | none => exact .refl (by grind -funext)
  | some method =>
    refine .bind (.refl (by grind -funext)) fun a => ?_
    cases a.function? method with
    | none => exact .refl (by grind -funext)
    | some f => exact .bind (h.call f _ _) fun v => .refl (by grind -funext)

/-- Only arrays and errors have contents that have to be converted. -/
@[grind ←]
theorem contentText : S.Follows (m.contentText o) (m'.contentText o) := by
  unfold Machine.contentText
  refine .bind (.refl (by grind -funext)) fun x => ?_
  cases x.kind <;> grind -funext

/-- The method that is asked second is asked by the machine that has not been stopped in the first
one. -/
@[grind ←]
theorem primitiveOf : S.Follows (m.primitiveOf o hint) (m'.primitiveOf o hint) := by
  unfold Machine.primitiveOf
  refine .bind (h.convertedBy o _) fun v => ?_
  cases v with
  | some v => exact .refl (by grind -funext)
  | none =>
    refine .bind (h.convertedBy o _) fun v => ?_
    cases v with
    | some v => exact .refl (by grind -funext)
    | none => exact .bind (h.contentText o) fun t => .refl (by grind -funext)

/-- Operators convert their operands, and compute with primitive values. -/
@[grind ←]
theorem binary (op : BinaryOp) : S.Follows (m.binary op v w) (m'.binary op v w) := by
  unfold Machine.binary Machine.add Machine.arithmetic Machine.isLess? Machine.isGreater?
    Machine.isLoosely
  grind -funext

end Conversions

/-! ### Assignments and patterns -/

section Bindings

variable (v : Value) (id : ObjectId) (k : PropertyKey) (e : Expr) (p : Pattern) (t : Target)
  (w : Walk) (keys : List PropertyKey) (place : Option EnvironmentId)

/-- Only the conversion of a new length can be stopped. -/
@[grind ←]
theorem setOn : S.Follows (m.setOn id k v) (m'.setOn id k v) := by
  unfold Machine.setOn
  refine .write (.bind (h.toNumber v) fun x => .refl ?_) id k v
  dsimp only
  split
  · exact S.law.setLength id _ (Nat.le_sub_one_of_lt (Double.toUInt32_lt x))
  · exact Law.raise _ _

/-- An assignment may be stopped before it is known whether it is refused. -/
@[grind ←]
theorem assignOn : S.Follows (m.assignOn id k v) (m'.assignOn id k v) := by
  unfold Machine.assignOn
  grind -funext

/-- Variables are written without tasks, properties with the conversion of a length at most. -/
@[grind ←]
theorem writeReference (r : Reference) :
    S.Follows (m.writeReference r v) (m'.writeReference r v) := by
  unfold Machine.writeReference
  grind -funext

/-- The name is given to what has been evaluated. -/
@[grind ←]
theorem named (name : String) : S.Follows (m.named e name) (m'.named e name) := by
  unfold Machine.named
  grind -funext

@[grind ←]
theorem namedBy (name : Option String) : S.Follows (m.namedBy e name) (m'.namedBy e name) := by
  unfold Machine.namedBy
  grind -funext

/-- Computed keys are evaluated and converted. -/
@[grind ←]
theorem nameKey (n : PropertyName) : S.Follows (m.nameKey n) (m'.nameKey n) := by
  unfold Machine.nameKey
  grind -funext

/-- A name is initialized without tasks, or looked up and written to. -/
@[grind ←]
theorem bindName (name : String) :
    S.Follows (m.bindName name v place) (m'.bindName name v place) := by
  unfold Machine.bindName
  grind -funext

/-- A pattern is bound part by part, until one of them is stopped. -/
@[grind ←]
theorem bindElements (ps : List (Option Pattern)) :
    S.Follows (m.bindElements place ps w) (m'.bindElements place ps w) := by
  induction ps generalizing w with
  | nil => exact .refl (S.law.pure _)
  | cons x l ih => cases x <;> unfold Machine.bindElements <;> grind -funext

/-- So are the properties of a pattern, whose keys may be stopped as well. -/
@[grind ←]
theorem bindProperties (ps : List PatternProperty) :
    S.Follows (m.bindProperties place v ps keys) (m'.bindProperties place v ps keys) := by
  induction ps generalizing keys with
  | nil => exact .refl (S.law.pure _)
  | cons x l ih =>
    unfold Machine.bindProperties
    grind -funext

/-- Patterns are bound by their parts. -/
@[grind ←]
theorem bindPattern : S.Follows (m.bindPattern p v place) (m'.bindPattern p v place) := by
  cases p <;> unfold Machine.bindPattern <;> grind -funext

/-- The operands of references are expressions. -/
@[grind ←]
theorem referenceOf? : S.Follows (m.referenceOf? e) (m'.referenceOf? e) := by
  unfold Machine.referenceOf?
  grind -funext

@[grind ←]
theorem callee : S.Follows (m.callee e) (m'.callee e) := by
  unfold Machine.callee
  grind -funext

/-- So are those of targets. -/
@[grind ←]
theorem targetReference? : S.Follows (m.targetReference? t) (m'.targetReference? t) := by
  cases t <;> unfold Machine.targetReference? <;> grind -funext

@[grind ←]
theorem assignAt (r : Option Reference) : S.Follows (m.assignAt t r v) (m'.assignAt t r v) := by
  unfold Machine.assignAt
  grind -funext

@[grind ←]
theorem assignPart (part : TargetElement) (r : Option Reference) :
    S.Follows (m.assignPart part r v) (m'.assignPart part r v) := by
  unfold Machine.assignPart
  grind -funext

/-- Targets are assigned to part by part, until one of them is stopped. -/
@[grind ←]
theorem assignElements (parts : List (Option TargetElement)) :
    S.Follows (m.assignElements parts w) (m'.assignElements parts w) := by
  induction parts generalizing w with
  | nil => exact .refl (S.law.pure _)
  | cons x l ih => cases x <;> unfold Machine.assignElements <;> grind -funext

/-- So are the properties of a target, whose keys may be stopped as well. -/
@[grind ←]
theorem assignProperties (parts : List TargetProperty) :
    S.Follows (m.assignProperties v parts keys) (m'.assignProperties v parts keys) := by
  induction parts generalizing keys with
  | nil => exact .refl (S.law.pure _)
  | cons x l ih => cases x <;> unfold Machine.assignProperties <;> grind -funext

/-- Targets are assigned to by their parts. -/
@[grind ←]
theorem assignTarget : S.Follows (m.assignTarget t v) (m'.assignTarget t v) := by
  cases t with
  | array elements rest =>
    unfold Machine.assignTarget
    refine .bind (.refl (Law.startWalk v)) fun w => .bind (h.assignElements w elements) fun w => ?_
    cases rest <;> grind -funext
  | object properties rest =>
    unfold Machine.assignTarget
    refine .bind (.refl (Law.requireParts v)) fun _ => ?_
    refine .bind (h.assignProperties v [] properties) fun keys => ?_
    cases rest <;> grind -funext
  | _ =>
    unfold Machine.assignTarget
    grind -funext

end Bindings

/-! ### Built-in functions -/

section Builtins

variable (v this : Value) (args : List Value) (t : Text) (id f : ObjectId)

@[grind ←]
theorem integerOr (missing : Float) :
    S.Follows (m.integerOr v missing) (m'.integerOr v missing) := by
  unfold Machine.integerOr
  grind -funext

@[grind ←]
theorem indexOr (convert : Float → Nat) (missing : Nat) :
    S.Follows (m.indexOr v convert missing) (m'.indexOr v convert missing) := by
  unfold Machine.indexOr
  grind -funext

@[grind ←]
theorem textOr (missing : Text) : S.Follows (m.textOr v missing) (m'.textOr v missing) := by
  unfold Machine.textOr
  grind -funext

/-- A visit is a call. -/
@[grind ←]
theorem visitor (i : Nat) : S.Follows (m.visitor f this id i v) (m'.visitor f this id i v) := by
  unfold Machine.visitor
  grind -funext

/-- A search has as many rounds in both machines as there are elements at the beginning. -/
@[grind ←]
theorem find? (length : Nat) :
    S.Follows (m.find? f this id length) (m'.find? f this id length) := by
  unfold Machine.find?
  refine .iterate (fun i => ?_) (.inl rfl) _
  grind -funext

/-- A reduction is a walk whose visits are calls. -/
@[grind ←]
theorem reduceFrom (start : Nat) :
    S.Follows (m.reduceFrom f id start v) (m'.reduceFrom f id start v) := by
  unfold Machine.reduceFrom
  grind -funext

@[grind ←]
theorem reduce (start : Option Value) :
    S.Follows (m.reduce f id start) (m'.reduce f id start) := by
  unfold Machine.reduce
  grind -funext

@[grind ←]
theorem sourceValues : S.Follows (m.sourceValues v) (m'.sourceValues v) := by
  unfold Machine.sourceValues
  grind -funext

/-- Values are mapped one after the other, until a call is stopped. -/
@[grind ←]
theorem mapValues (i : Nat) (values : List Value) :
    S.Follows (m.mapValues f this i values) (m'.mapValues f this i values) := by
  induction values generalizing i with
  | nil => exact .refl (S.law.pure _)
  | cons x l ih =>
    unfold Machine.mapValues
    grind -funext

@[grind ←]
theorem arrayFunction (g : ArrayFunction) :
    S.Follows (m.arrayFunction g args) (m'.arrayFunction g args) := by
  unfold Machine.arrayFunction
  grind -funext

/-- The methods that call back are walks over the same elements, as the walk reads them itself. -/
@[grind ←]
theorem arrayVisit (g : ArrayMethod) :
    S.Follows (m.arrayVisit g id args) (m'.arrayVisit g id args) := by
  unfold Machine.arrayVisit
  refine .bind (.refl (Law.callable _)) fun f => ?_
  cases g with
  | find | findIndex | reduce => grind -funext
  | map =>
    refine .bind (.refl (Law.elementsOf id)) fun e => .walkElements (fun e i v => ?_) (fun e => ?_) _ _ _
    · grind -funext
    · grind -funext
  | _ => refine .walkElements (fun _ i v => ?_) (fun _ => ?_) _ _ _ <;> grind -funext

/-- The start of a search is converted, and nothing else. -/
@[grind ←]
theorem searchStart (length : Nat) :
    S.Follows (m.searchStart length v) (m'.searchStart length v) := by
  unfold Machine.searchStart
  grind -funext

/-- Those methods that change an array call nothing: they are the same in both machines. -/
@[grind ←]
theorem arrayMethod (g : ArrayMethod) :
    S.Follows (m.arrayMethod g this args) (m'.arrayMethod g this args) := by
  unfold Machine.arrayMethod
  refine .bind (.refl (Law.thisArray this g)) fun id => .bind (.refl (Law.elementsOf id)) fun e => ?_
  cases g with
  -- The methods that run no other task are the same on both sides.
  | concat => exact .refl (Law.concat args id)
  | pop => exact .refl (Law.bind _ (S.law.changeArray id _ _ fun _ h => h.pop) fun _ => S.law.pure _)
  | shift =>
    exact .refl (Law.bind _ (S.law.changeArray id _ _ fun _ h => h.shift) fun _ => S.law.pure _)
  | push =>
    refine .refl (Law.bind _ (S.law.growArray id _ _ fun _ h hroom => ?_) fun _ => S.law.pure _)
    exact h.isSound_pushAll hroom
  | unshift =>
    refine .refl (Law.bind _ (S.law.growArray id _ _ fun _ h hroom => ?_) fun _ => S.law.pure _)
    exact h.isSound_unshift hroom
  | reverse =>
    exact .refl (Law.bind _ (S.law.changeArray id _ _ fun _ h => h.reverse) fun _ => S.law.pure _)
  | _ =>
    dsimp only
    grind -funext

/-- Only the message of an error is converted. -/
@[grind ←]
theorem makeError (kind : ErrorKind) :
    S.Follows (m.makeError kind args) (m'.makeError kind args) := by
  have hmessage : ∀ v, S.Follows (m.messageOf v) (m'.messageOf v) := by
    intro v
    unfold Machine.messageOf
    grind -funext
  unfold Machine.makeError
  exact .bind (hmessage _) fun _ => .bind (.refl (Law.causeOf _)) fun _ =>
    .refl (S.law.causedError kind _ _)

/-- Constructors convert their arguments. -/
@[grind ←]
theorem make (c : Constructor) (isNew : Bool) :
    S.Follows (m.make c isNew args) (m'.make c isNew args) := by
  unfold Machine.make
  grind -funext

/-- Arguments are converted from left to right, until one of them is stopped. -/
@[grind ←]
theorem numbers (values : List Value) : S.Follows (m.numbers values) (m'.numbers values) := by
  induction values with
  | nil => exact .refl (S.law.pure _)
  | cons x l ih =>
    unfold Machine.numbers
    grind -funext

@[grind ←]
theorem onNumber (g : Float → Float) : S.Follows (m.onNumber g args) (m'.onNumber g args) := by
  unfold Machine.onNumber
  grind -funext

@[grind ←]
theorem mathFunction (g : MathFunction) :
    S.Follows (m.mathFunction g args) (m'.mathFunction g args) := by
  unfold Machine.mathFunction
  grind -funext

@[grind ←]
theorem globalFunction (g : GlobalFunction) :
    S.Follows (m.globalFunction g args) (m'.globalFunction g args) := by
  unfold Machine.globalFunction
  grind -funext

/-- Only the places and the radix are converted. -/
@[grind ←]
theorem numberMethod (g : NumberMethod) :
    S.Follows (m.numberMethod g this args) (m'.numberMethod g this args) := by
  unfold Machine.numberMethod Machine.fixedText Machine.radixText
  grind -funext

/-- Properties are read and assigned one after the other. -/
@[grind ←]
theorem assignKeys (source : ObjectId) (keys : List PropertyKey) :
    S.Follows (m.assignKeys id source keys) (m'.assignKeys id source keys) := by
  induction keys with
  | nil => exact .refl (S.law.pure _)
  | cons x l ih =>
    unfold Machine.assignKeys
    grind -funext

/-- Entries are assigned one after the other. -/
@[grind ←]
theorem assignEntries (entries : List (PropertyKey × Value)) :
    S.Follows (m.assignEntries id entries) (m'.assignEntries id entries) := by
  induction entries with
  | nil => exact .refl (S.law.pure _)
  | cons x l ih =>
    unfold Machine.assignEntries
    grind -funext

/-- Sources are gone through one after the other. -/
@[grind ←]
theorem assignSources (values : List Value) :
    S.Follows (m.assignSources id values) (m'.assignSources id values) := by
  induction values with
  | nil => exact .refl (S.law.pure _)
  | cons x l ih => cases x <;> unfold Machine.assignSources <;> grind -funext

/-- The second machine may have more rounds than the first one, which is stopped if it has no more. -/
@[grind ←]
theorem objectOfEntries : S.Follows (m.objectOfEntries v) (m'.objectOfEntries v) := by
  unfold Machine.objectOfEntries
  refine .bind (.refl (by grind -funext)) fun w => .bind (.refl (by grind -funext)) fun o =>
    .iterate (fun w => ?_) h.fuel _
  refine .bind (.refl (by grind -funext)) fun p => ?_
  split <;> grind -funext

@[grind ←]
theorem objectFunction (g : ObjectFunction) :
    S.Follows (m.objectFunction g args) (m'.objectFunction g args) := by
  unfold Machine.objectFunction
  grind -funext

@[grind ←]
theorem objectMethod (g : ObjectMethod) :
    S.Follows (m.objectMethod g this args) (m'.objectMethod g this args) := by
  unfold Machine.objectMethod
  grind -funext

/-- The length of the list is converted; its values are read without tasks. -/
@[grind ←]
theorem argumentsOf : S.Follows (m.argumentsOf v) (m'.argumentsOf v) := by
  have hplaces : ∀ id length, S.law.Holds ((List.range length).mapM fun i => getFrom id (.ofNat i)) :=
    fun id length => Law.mapM (fun i => Law.getFrom id _) _
  cases v <;> unfold Machine.argumentsOf <;> grind -funext

/-- A function's methods are calls. -/
@[grind ←]
theorem functionMethod (g : FunctionMethod) :
    S.Follows (m.functionMethod g this args) (m'.functionMethod g this args) := by
  unfold Machine.functionMethod
  grind -funext

@[grind ←]
theorem errorToString : S.Follows (m.errorToString this) (m'.errorToString this) := by
  unfold Machine.errorToString
  grind -funext

@[grind ←]
theorem thisText (g : TextMethod) : S.Follows (m.thisText g this) (m'.thisText g this) := by
  unfold Machine.thisText
  grind -funext

/-- The length and the text that is filled in are converted. -/
@[grind ←]
theorem padding : S.Follows (m.padding t args) (m'.padding t args) := by
  unfold Machine.padding
  grind -funext

@[grind ←]
theorem repeated : S.Follows (m.repeated t v) (m'.repeated t v) := by
  unfold Machine.repeated
  grind -funext

/-- The limit and the separator are converted. -/
@[grind ←]
theorem pieces : S.Follows (m.pieces t args) (m'.pieces t args) := by
  unfold Machine.pieces Machine.limitOf
  grind -funext

@[grind ←]
theorem charAt : S.Follows (m.charAt t v) (m'.charAt t v) := by
  unfold Machine.charAt
  grind -funext

/-- Both arguments are converted. -/
@[grind ←]
theorem search : S.Follows (m.search t args) (m'.search t args) := by
  unfold Machine.search
  grind -funext

/-- What the method is called on is converted, and then its arguments. -/
@[grind ←]
theorem textMethod (g : TextMethod) :
    S.Follows (m.textMethod g this args) (m'.textMethod g this args) := by
  unfold Machine.textMethod Machine.textMethodOn
  grind -funext

/-- All built-in functions convert or call, and the rest is the same in both machines. -/
@[grind ←]
theorem callBuiltin (b : Builtin) :
    S.Follows (m.callBuiltin b this args) (m'.callBuiltin b this args) := by
  unfold Machine.callBuiltin
  grind -funext

end Builtins

/-! ### Expressions -/

section Expressions

variable (v w : Value) (e left right : Expr) (t : Target)

/-- Arguments are evaluated from left to right, until one of them is stopped. -/
@[grind ←]
theorem arguments (as : List Argument) : S.Follows (m.arguments as) (m'.arguments as) := by
  induction as with
  | nil => exact .refl (S.law.pure _)
  | cons x l ih => cases x <;> unfold Machine.arguments <;> grind -funext

/-- So are the elements of an array. -/
@[grind ←]
theorem elements (es : List Element) : S.Follows (m.elements es) (m'.elements es) := by
  induction es with
  | nil => exact .refl (S.law.pure _)
  | cons x l ih => cases x <;> unfold Machine.elements <;> grind -funext

/-- So are the properties of an object, with their keys. -/
@[grind ←]
theorem properties (o : ObjectId) (ps : List Property) :
    S.Follows (m.properties o ps) (m'.properties o ps) := by
  induction ps with
  | nil => exact .refl (S.law.pure _)
  | cons x l ih => cases x <;> unfold Machine.properties <;> grind -funext

/-- Values are evaluated and converted between the pieces of a template. -/
@[grind ←]
theorem templateText (qs : List Quasi) (es : List Expr) (text : Text) :
    S.Follows (m.templateText qs es text) (m'.templateText qs es text) := by
  induction qs generalizing es text with
  | nil => exact .refl (S.law.pure _)
  | cons x l ih => cases es <;> unfold Machine.templateText <;> grind -funext

/-- The expressions of a sequence, until one of them is stopped. -/
@[grind ←]
theorem sequence (es : List Expr) : S.Follows (m.sequence es v) (m'.sequence es v) := by
  induction es generalizing v with
  | nil => exact .refl (S.law.pure _)
  | cons x l ih =>
    unfold Machine.sequence
    grind -funext

/-- The operand is evaluated, or those of a reference. -/
@[grind ←]
theorem unary (op : UnaryOp) : S.Follows (m.unary op e) (m'.unary op e) := by
  unfold Machine.unary
  grind -funext

/-- The right side is evaluated by both machines or by none. -/
@[grind ←]
theorem logical (op : LogicalOp) :
    S.Follows (m.logical op left right) (m'.logical op left right) := by
  unfold Machine.logical Machine.pipeline
  grind -funext

@[grind ←]
theorem update (op : UpdateOp) (before : Bool) :
    S.Follows (m.update op before t) (m'.update op before t) := by
  unfold Machine.update
  grind -funext

@[grind ←]
theorem assigning (r : Reference) : S.Follows (m.assigning r v) (m'.assigning r v) := by
  unfold Machine.assigning
  grind -funext

/-- The target is resolved, the value evaluated, and the reference written; each of them may be
stopped. -/
@[grind ←]
theorem assignment (op : AssignOp) : S.Follows (m.assignment op t e) (m'.assignment op t e) := by
  unfold Machine.assignment
  split
  · exact .refl (by grind -funext)
  · split
    · grind -funext
    · refine .bind (h.targetReference? t) fun r => ?_
      cases r with
      | none => exact .refl (by grind -funext)
      | some r => cases op <;> grind -funext

/-- The arguments may be stopped, and the call. -/
@[grind ←]
theorem invocation (this : Value) (as : List Argument) (place : Span) :
    S.Follows (m.invocation v this as place) (m'.invocation v this as place) := by
  unfold Machine.invocation
  grind -funext

@[grind ←]
theorem construct (id : ObjectId) (args : List Value) :
    S.Follows (m.construct id args) (m'.construct id args) := by
  unfold Machine.construct
  grind -funext

/-- It is only looked up whether there is a constructor. -/
@[grind ←]
theorem construction (as : List Argument) :
    S.Follows (m.construction e as) (m'.construction e as) := by
  unfold Machine.construction
  refine .bind (h.expression e) fun f => .bind (h.arguments as) fun vs =>
    .bind (.refl (by grind -funext)) fun a => ?_
  cases a.constructor? f with
  | none => exact .refl (by grind -funext)
  | some id => exact h.construct id vs

/-- The array of the template is the same for both machines. -/
@[grind ←]
theorem taggedTemplate (template : Template) :
    S.Follows (m.taggedTemplate e template) (m'.taggedTemplate e template) := by
  unfold Machine.taggedTemplate
  grind -funext

/-- The base of a link is a link; if it ends the chain, it does so for both machines. -/
@[grind ←]
theorem evaluateLink : S.Follows (m.evaluateLink e) (m'.evaluateLink e) := by
  cases e with
  | call | member | index =>
    unfold Machine.evaluateLink
    refine .bind (.refl (Law.record _)) fun _ => .bind (h.run _) fun o => ?_
    rcases o with _ | ⟨v, this⟩ <;> grind -funext
  | _ =>
    unfold Machine.evaluateLink
    grind -funext

@[grind ←]
theorem chain : S.Follows (m.chain e) (m'.chain e) := by
  unfold Machine.chain
  grind -funext

/-- All forms of expressions. -/
@[grind ←]
theorem value : S.Follows (m.value e) (m'.value e) := by
  cases e <;> unfold Machine.value <;> grind -funext

/-- The evaluation is recorded by both machines, and then done. -/
@[grind ←]
theorem evaluateExpression : S.Follows (m.evaluateExpression e) (m'.evaluateExpression e) := by
  unfold Machine.evaluateExpression
  grind -funext

end Expressions

/-! ### Functions and statements -/

section Statements

variable (v : Value) (s : Stmt) (b : Block) (head : LoopHead) (e : Expr) (f : Function)
  (args : List Value) (place : EnvironmentId)

/-- A default is evaluated by both machines or by none. -/
@[grind ←]
theorem parameterValue (b : Binding) :
    S.Follows (m.parameterValue b v) (m'.parameterValue b v) := by
  unfold Machine.parameterValue
  grind -funext

/-- Parameters are bound from left to right, until one of them is stopped. -/
@[grind ←]
theorem bindParameters (bs : List Binding) :
    S.Follows (m.bindParameters place bs args) (m'.bindParameters place bs args) := by
  induction bs generalizing args with
  | nil => exact .refl (S.law.pure _)
  | cons x l ih =>
    unfold Machine.bindParameters
    grind -funext

@[grind ←]
theorem bindRest (p : Option Pattern) :
    S.Follows (m.bindRest place p args) (m'.bindRest place p args) := by
  unfold Machine.bindRest
  grind -funext

/-- Names are created without tasks, and only binding the parameters can be stopped. -/
@[grind ←]
theorem enter : S.Follows (m.enter f args) (m'.enter f args) := by
  unfold Machine.enter
  refine .bind (.refl (Law.scopeAt _ _)) fun scope => .bind (.refl Law.environment) fun e => ?_
  refine .bind (.refl (Law.forM (fun d => (S.law.fills e).createParameter d) _)) fun _ => ?_
  refine .bind (h.bindParameters args e _) fun left => .bind (h.bindRest left e _) fun _ => ?_
  refine .bind (.refl (S.law.bodyEnvironment e f scope)) fun inner => ?_
  refine .bind (.refl (S.setEnvironment inner)) fun _ => ?_
  refine .bind (.refl (Law.forM (fun d => (S.law.fills inner).createLexical d) _)) fun _ => ?_
  exact .refl (Law.forM (fun f => (S.law.fills inner).assignFunction f) _)

/-- Statements are performed one after the other, until one of them is stopped. -/
@[grind ←]
theorem statementsFrom (ss : List Stmt) (v : Option Value) :
    S.Follows (m.statementsFrom ss v) (m'.statementsFrom ss v) := by
  induction ss generalizing v with
  | nil => exact .refl (S.law.pure _)
  | cons x l ih =>
    unfold Machine.statementsFrom
    grind -funext

@[grind ←]
theorem statements (ss : List Stmt) : S.Follows (m.statements ss) (m'.statements ss) := by
  unfold Machine.statements
  grind -funext

/-- A body consists of statements or is an expression. -/
@[grind ←]
theorem body : S.Follows (m.body f) (m'.body f) := by
  unfold Machine.body
  grind -funext

/-- The environment of a call is made before anything can be stopped. -/
@[grind ←]
theorem callClosure (c : Closure) :
    S.Follows (m.callClosure c args) (m'.callClosure c args) := by
  unfold Machine.callClosure
  refine .bind (.refl (Law.recordCall c)) fun _ => .bind (.refl (Law.report _)) fun _ => ?_
  grind -funext

/-- Closures and built-in functions are called in different ways. -/
@[grind ←]
theorem callFunction (f : ObjectId) (this : Value) :
    S.Follows (m.callFunction f this args) (m'.callFunction f this args) := by
  unfold Machine.callFunction
  grind -funext

/-- Without an initializer only the kind of the pattern decides what is done. -/
@[grind ←]
theorem declare (isFunctionWide : Bool) (b : Binding) :
    S.Follows (m.declare isFunctionWide b) (m'.declare isFunctionWide b) := by
  have hplace : S.law.Holds (declarationPlace isFunctionWide) := by
    unfold declarationPlace
    grind
  obtain ⟨p, e⟩ := b
  unfold Machine.declare
  cases p <;> cases e <;> grind -funext

@[grind ←]
theorem declareAll (isFunctionWide : Bool) (bs : List Binding) :
    S.Follows (m.declareAll isFunctionWide bs) (m'.declareAll isFunctionWide bs) := by
  induction bs with
  | nil => exact .refl (S.law.pure _)
  | cons x l ih =>
    unfold Machine.declareAll
    grind -funext

@[grind ←]
theorem declaration (d : VarDecl) : S.Follows (m.declaration d) (m'.declaration d) := by
  unfold Machine.declaration
  grind -funext

/-- The environment of a block is made without tasks. -/
@[grind ←]
theorem block : S.Follows (m.block b) (m'.block b) := by
  unfold Machine.block
  grind -funext

@[grind ←]
theorem conditional (place : Span) (alternate : Option Stmt) :
    S.Follows (m.conditional place e s alternate) (m'.conditional place e s alternate) := by
  unfold Machine.conditional
  grind -funext

/-- The parameter of a handler is bound, and then its block is run. -/
@[grind ←]
theorem handle (c : Handler) : S.Follows (m.handle c v) (m'.handle c v) := by
  unfold Machine.handle
  grind -funext

@[grind ←]
theorem guarded (c : Option Handler) : S.Follows (m.guarded b c) (m'.guarded b c) := by
  unfold Machine.guarded
  grind -funext

/-- Handlers and finalizers are run by both machines or, if the first one has been stopped, by the
second one. -/
@[grind ←]
theorem attempt (c : Option Handler) (finalizer : Option Block) :
    S.Follows (m.attempt b c finalizer) (m'.attempt b c finalizer) := by
  unfold Machine.attempt
  grind -funext

/-- The tests of clauses are evaluated until one is met. -/
@[grind ←]
theorem select (cases : List Case) : S.Follows (m.select v cases) (m'.select v cases) := by
  induction cases with
  | nil => exact .refl (S.law.pure _)
  | cons x l ih =>
    unfold Machine.select
    grind -funext

@[grind ←]
theorem selected (cases : List Case) : S.Follows (m.selected v cases) (m'.selected v cases) := by
  unfold Machine.selected
  grind -funext

/-- The clauses behind that one are run one after the other. -/
@[grind ←]
theorem clauses (cases : List Case) : S.Follows (m.clauses cases v) (m'.clauses cases v) := by
  induction cases generalizing v with
  | nil => exact .refl (S.law.pure _)
  | cons x l ih =>
    unfold Machine.clauses
    grind -funext

@[grind ←]
theorem switch (place : Span) (cases : List Case) :
    S.Follows (m.switch place e cases) (m'.switch place e cases) := by
  unfold Machine.switch
  grind -funext

@[grind ←]
theorem holds (test : Option Expr) : S.Follows (m.holds test) (m'.holds test) := by
  unfold Machine.holds
  grind -funext

@[grind ←]
theorem effect (update : Option Expr) : S.Follows (m.effect update) (m'.effect update) := by
  unfold Machine.effect
  grind -funext

/-- The number of rounds is limited by the machine, and the second one has at least as many. -/
@[grind ←]
theorem whileLoop : S.Follows (m.whileLoop e s) (m'.whileLoop e s) := by
  unfold Machine.whileLoop
  refine .iterate (fun v => ?_) h.fuel _
  grind -funext

@[grind ←]
theorem doLoop : S.Follows (m.doLoop s e) (m'.doLoop s e) := by
  unfold Machine.doLoop
  refine .iterate (fun v => ?_) h.fuel _
  grind -funext

@[grind ←]
theorem rounds (names : List String) (test update : Option Expr) :
    S.Follows (m.rounds names test update s) (m'.rounds names test update s) := by
  unfold Machine.rounds
  refine .bind (.refl (by grind -funext)) fun _ => .iterate (fun v => ?_) h.fuel _
  grind -funext

/-- The variables of a loop are renewed without tasks. -/
@[grind ←]
theorem countingLoop (init : LoopInit) (test update : Option Expr) :
    S.Follows (m.countingLoop init test update s) (m'.countingLoop init test update s) := by
  unfold Machine.countingLoop
  grind -funext

@[grind ←]
theorem round : S.Follows (m.round head s v) (m'.round head s v) := by
  unfold Machine.round
  grind -funext

@[grind ←]
theorem subject : S.Follows (m.subject head e) (m'.subject head e) := by
  unfold Machine.subject
  grind -funext

/-- The walk is the same in both machines, and a round may be stopped. -/
@[grind ←]
theorem forEach (w : Walk) : S.Follows (m.forEach head s w) (m'.forEach head s w) := by
  unfold Machine.forEach
  refine .iterate (fun s => ?_) h.fuel _
  grind -funext

@[grind ←]
theorem forIn : S.Follows (m.forIn head e s) (m'.forIn head e s) := by
  unfold Machine.forIn
  grind -funext

@[grind ←]
theorem forOf : S.Follows (m.forOf head e s) (m'.forOf head e s) := by
  unfold Machine.forOf
  grind -funext

/-- All forms of statements. -/
@[grind ←]
theorem perform : S.Follows (m.perform s) (m'.perform s) := by
  unfold Machine.perform
  grind -funext

/-- The evaluation of a statement is recorded first; a block records its own. -/
@[grind ←]
theorem evaluateStatement : S.Follows (m.evaluateStatement s) (m'.evaluateStatement s) := by
  unfold Machine.evaluateStatement
  grind -funext

end Statements

/-- **Doing tasks with a machine below another one gives a machine below.** -/
theorem step (t : Task α) : S.Follows (m.step t) (m'.step t) := by
  cases t with
  | expression e => exact h.evaluateExpression e
  | name _ name => exact .refl (Law.resolve name)
  | link e => exact h.evaluateLink e
  | statement s => exact h.evaluateStatement s
  | assign t v => exact h.assignTarget v t
  | bind p v e => exact h.bindPattern v p e
  | call f this args => exact h.callFunction args f this
  | primitive o hint => exact h.primitiveOf o hint

/-! ### Loading and calling -/

section Requests

variable (t : Tidying)

/-- A function that is a root is made without tasks; an expression is one. -/
theorem evaluateRoot (globals : EnvironmentId) (root : Root) :
    S.Follows (m.evaluateRoot globals root) (m'.evaluateRoot globals root) := by
  cases root with
  | expression e => exact h.expression e
  | function f =>
    unfold Machine.evaluateRoot
    refine .bind (.refl (Law.record _)) fun _ => .bind (.refl (S.law.newEnvironment _)) fun e => ?_
    refine .refl (Law.bind _ (Law.declaredFunction _ f e) fun v => ?_)
    cases f.name with
    | none => exact S.law.pure v
    | some name => exact Law.bind _ ((S.law.fills e).createConstant (name, v)) fun _ => S.law.pure v

/-- Loading makes a realm without tasks, and then evaluates the root in it. -/
theorem load (root : Root) (source : Source) (p : Provisions) :
    S.Follows (m.loadTidying t.apply root source p) (m'.loadTidying t.apply root source p) := by
  unfold Machine.loadTidying
  cases analyze ⟨root.isExpression, p.noVar⟩ root with
  | error r => exact .refl (Law.raise _ _)
  | ok s =>
    refine .bind (.refl (S.law.newEnvironment _)) fun globals => .bind (.refl (Law.report _)) fun _ => ?_
    refine .bind (.refl (Law.forM (fun x => (S.law.fills globals).createConstant x) _)) fun _ => ?_
    refine .bind (.refl (S.law.newRealm _ rfl)) fun r => .concluding t (.inContext ?_ _)
    exact h.evaluateRoot globals root

/-- **Whatever a host asks for** is done as the other machine does it, until it is stopped. -/
theorem answer (r : Request) : S.Follows (r.answer m t) (r.answer m' t) := by
  cases r with
  | globals => exact .refl (Law.bind _ (Law.standardGlobals _) fun _ => S.law.pure _)
  | load p => exact .bind (.refl S.law.get) fun _ => .bind (h.load t _ _ _) fun _ => .refl (S.law.pure _)
  | invoke f args =>
    refine .bind (.refl S.law.get) fun _ => .bind (.bind (.refl (Law.callable _)) fun id => ?_)
      fun _ => .refl (S.law.pure _)
    exact .concluding t (h.call id _ _)
  | rest => exact .refl (Law.bind _ (S.law.tidy t) fun _ => S.law.pure _)

end Requests

end IsBelow

end Stopping

end Scriptlet

