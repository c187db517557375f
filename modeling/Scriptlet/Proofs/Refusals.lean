import Scriptlet.Proofs.Expressions

/-!
# Syntax that is refused

Syntax without a meaning may stand in a root as long as evaluation does not come to it.  If it does,
the syntax is refused with an error before any part of it is evaluated.  The analysis warns of such
syntax beforehand, and what it warns of is refused.

The converse does not hold.  The analysis does not go into the name of a property unless it is
computed, and does not look at operators, but a large integer is refused as a name, and some
operators are refused wherever they stand.

## Main definitions

* `Agent.Evaluates` — the realm of the code that is being evaluated.

## Main results

* `warned_refused` — **what the analysis warns of is refused**, whenever evaluation comes to it.
* `unwarned_refused` — names and operators that are refused without a warning.
* `unwarned_largeName` — a root that is accepted without a warning and refused.
-/

namespace Scriptlet

open Eval

/-- Code of the realm is being evaluated. -/
def Agent.Evaluates (a : Agent) (r : Realm) : Prop :=
  ∃ c rest, a.contexts = c :: rest ∧ a.realms[c.realm.index]? = some r

namespace Eval

variable {α : Type} {a : Agent} {r : Realm}

theorem realm_eq (h : a.Evaluates r) : realm a = .ok r a := by
  obtain ⟨c, rest, hc, hr⟩ := h
  exact (bind_ok (context_eq hc)).trans (realmAt_eq hr)

theorem throws_unsupported (h : a.Evaluates r) (kind : String) (place : Span) :
    (unsupported kind place : Eval α).Throws .syntaxError a :=
  .after_ok (realm_eq h) rfl (throws_raise _ _ a)

/-- An event is recorded if the realm of the code that is being evaluated is traced. -/
theorem record_apply (h : a.Evaluates r) (e : Event) :
    record e a = (if r.isTraced then modify fun a => { a with trace := e :: a.trace } else
      Pure.pure () : Eval Unit) a := by
  obtain ⟨c, rest, hc, hr⟩ := h
  exact (bind_ok (context_eq hc)).trans (bind_ok (realmAt_eq hr))

/-- A new event does not change whose code is evaluated. -/
theorem record_eq (h : a.Evaluates r) (e : Event) :
    ∃ b, record e a = .ok () b ∧ b.environments = a.environments ∧ b.Evaluates r := by
  rw [record_apply h]
  obtain ⟨c, rest, hc, hr⟩ := h
  split
  · exact ⟨_, rfl, rfl, c, rest, hc, hr⟩
  · exact ⟨a, rfl, rfl, c, rest, hc, hr⟩

/-- There is a realm if an event can be recorded. -/
theorem evaluates_of_record {b : Agent} {e : Event} (h : record e a = .ok () b) : ∃ r, b.Evaluates r := by
  -- An event is recorded only where there is a context with its realm.
  cases hc : a.contexts with
  | nil =>
    unfold record at h
    rw [bind_error (context_of_nil hc)] at h
    cases h
  | cons c rest =>
    cases hr : a.realms[c.realm.index]? with
    | none =>
      unfold record recordIn at h
      rw [bind_ok (context_eq hc), bind_error (realmAt_of_none hr)] at h
      cases h
    | some r =>
      obtain ⟨d, hd, -, hevaluates⟩ := record_eq ⟨c, rest, hc, hr⟩ e
      rw [hd] at h
      cases h
      exact ⟨r, hevaluates⟩

/-- Syntax that is refused as soon as its event is recorded. -/
theorem throws_recorded {kind : ErrorKind} {p : Eval α} (h : a.Evaluates r) (e : Event)
    (hp : ∀ b : Agent, b.Evaluates r → p.Throws kind b) :
    (do record e; p : Eval α).Throws kind a := by
  obtain ⟨b, hb, henvironments, hevaluates⟩ := record_eq h e
  exact .after_ok hb henvironments (hp b hevaluates)

end Eval

namespace Machine

variable {m : Machine} {a : Agent} {r : Realm}

/-- An expression without a meaning is refused. -/
theorem expression_unsupported (h : a.Evaluates r) {e : Expr}
    (he : e.isUnsupported r.rules = true) : (m.evaluateExpression e).Throws .syntaxError a := by
  have hinner : e.inner = e := by
    cases e with
    | wrapped => cases he
    | _ => rfl
  unfold evaluateExpression
  rw [hinner]
  refine throws_recorded h _ fun b hb => .after_ok (realm_eq hb) rfl ?_
  rw [if_pos he]
  exact throws_unsupported hb _ _

/-- An expression with a meaning is refused if its value is. -/
theorem expression_value (h : a.Evaluates r) {e : Expr} (hinner : e.inner = e)
    (he : e.isUnsupported r.rules = false)
    (hvalue : ∀ b : Agent, b.Evaluates r → (m.value e).Throws .syntaxError b) :
    (m.evaluateExpression e).Throws .syntaxError a := by
  unfold evaluateExpression
  rw [hinner]
  refine throws_recorded h _ fun b hb => .after_ok (realm_eq hb) rfl ?_
  rw [if_neg (by rw [he]; exact Bool.false_ne_true)]
  exact hvalue b hb

/-- A statement without a meaning is refused. -/
theorem statement_unsupported (h : a.Evaluates r) {s : Stmt} (hs : s.isUnsupported = true) :
    (m.evaluateStatement s).Throws .syntaxError a := by
  unfold evaluateStatement
  split
  · cases hs
  · refine throws_recorded h _ fun b hb => ?_
    rw [if_pos hs]
    exact throws_unsupported hb _ _

end Machine

/-! ### What the analysis warns of -/

variable {r : Realm} {a : Agent} {c : Surroundings}

theorem Expr.notes_unsupported {e : Expr} (he : e.isUnsupported c.rules = true) :
    e.notes c = [.warning (.unsupportedNode e.kind e.span)] := by
  cases e with
  | foreign | privateMember => rfl
  | assign | update => exact if_pos he
  | function f => exact if_pos ((Bool.and_comm _ _).trans he)
  | _ => cases he

theorem Stmt.notes_unsupported {s : Stmt} (hs : s.isUnsupported = true) :
    s.notes c = [.warning (.unsupportedNode s.kind s.span)] := by
  cases s with
  | labelled | foreign => rfl
  | «break» | «continue» | forOf | declaration => exact if_pos hs
  | _ => cases hs

/-- **What the analysis warns of is refused.**  The notes on syntax without a meaning are the
warning alone, and evaluation under the same rules refuses it wherever it comes to it: as an
expression, as a statement, as an accessor of an object literal, as a private name in a chain or as
a target. -/
theorem warned_refused (h : a.Evaluates r) (hc : c.rules.expressionOnly = r.rules.expressionOnly)
    (n : Nat) :
    (∀ e : Expr, e.isUnsupported c.rules = true →
      e.notes c = [.warning (.unsupportedNode e.kind e.span)] ∧
        (Task.run (n + 1) (.expression e)).Throws .syntaxError a) ∧
    (∀ s : Stmt, s.isUnsupported = true →
      s.notes c = [.warning (.unsupportedNode s.kind s.span)] ∧
        (Task.run (n + 1) (.statement s)).Throws .syntaxError a) ∧
    (∀ place kind rest o,
      propertyNotes c (.accessor place kind :: rest) =
        .warning (.unsupportedAccessor kind place) :: propertyNotes c rest ∧
        ((Machine.ofDepth n).properties o (.accessor place kind :: rest)).Throws .syntaxError a) ∧
    (∀ place place' o field b,
      (Expr.chain place (.privateMember place' o field b)).notes c = [privateNote field] ∧
        (Task.run (n + 1) (.expression (.chain place (.privateMember place' o field b)))).Throws
          .syntaxError a) ∧
    ∀ place field,
      (Target.privateMember place field).notes c = [privateNote field] ∧
        ((Machine.ofDepth n).targetReference? (.privateMember place field)).Throws
          .syntaxError a := by
  refine ⟨fun e he => ⟨e.notes_unsupported he, ?_⟩, fun s hs => ⟨s.notes_unsupported hs, ?_⟩,
    fun place kind rest o => ⟨rfl, ?_⟩, fun place place' o field b => ⟨rfl, ?_⟩,
    fun place field => ⟨rfl, ?_⟩⟩
  · rw [e.isUnsupported_congr hc] at he
    exact Machine.expression_unsupported h he
  · exact Machine.statement_unsupported h hs
  · exact throws_raise _ _ a
  · exact Machine.expression_value h rfl rfl fun b hb => throws_unsupported hb _ _
  · exact throws_unsupported h _ _

/-- A root that is a single word without a meaning is warned of, and refused in its realm. -/
theorem warned_refused_this :
    let e : Expr := .foreign ⟨0, 4⟩ .this
    let r : Realm := ⟨.ofString "this", .expression e, default, [], false, []⟩
    let a : Agent := { Agent.empty with realms := #[r], contexts := [⟨⟨0⟩, default⟩] }
    e.isUnsupported r.rules = true ∧ a.Evaluates r ∧
      e.notes ⟨r.rules, []⟩ = [.warning (.unsupportedNode "ThisExpression" ⟨0, 4⟩)] ∧
      (Task.run 1 (.expression e)).Throws .syntaxError a := by
  intro e r a
  have ha : a.Evaluates r := ⟨⟨⟨0⟩, default⟩, [], rfl, rfl⟩
  exact ⟨rfl, ha, (warned_refused (c := ⟨r.rules, []⟩) ha rfl 0).1 e rfl⟩

/-! ### What it does not warn of -/

/-- **Names and operators are refused without a warning.**  A large integer is refused as the name
of a property that is not computed, and some operators are refused before their operands are
evaluated.  The analysis notes of such syntax what it notes of its parts. -/
theorem unwarned_refused (h : a.Evaluates r) (hc : c.rules.expressionOnly = r.rules.expressionOnly)
    (n : Nat) :
    (∀ place, nameNotes c (.bigInt place) = [] ∧
      ((Machine.ofDepth (n + 1)).nameKey (.bigInt place)).Throws .syntaxError a) ∧
    (∀ place e, (Expr.unary place .complement e).notes c = e.notes c ∧
      (Task.run (n + 1) (.expression (.unary place .complement e))).Throws .syntaxError a) ∧
    (∀ place op e f, BinaryOp.isSupported op = false →
      (Expr.binary place op e f).notes c = e.notes c ++ f.notes c ∧
        (Task.run (n + 1) (.expression (.binary place op e f))).Throws .syntaxError a) ∧
    ∀ place op t e, AssignOp.isSupported op = false → r.rules.expressionOnly = false →
      (Expr.assign place op t e).notes c = t.notes c ++ e.notes c ∧
        (Task.run (n + 1) (.expression (.assign place op t e))).Throws .syntaxError a := by
  refine ⟨fun place => ⟨rfl, ?_⟩, fun place e => ⟨rfl, ?_⟩,
    fun place op e f hop => ⟨rfl, ?_⟩, fun place op t e hop hall => ⟨?_, ?_⟩⟩
  · exact .bind (Machine.expression_unsupported h rfl) _
  · exact Machine.expression_value h rfl rfl fun b _ => throws_raise _ _ b
  · refine Machine.expression_value h rfl rfl fun b _ => ?_
    unfold Machine.value
    dsimp only
    rw [if_neg (by rw [hop]; exact Bool.false_ne_true)]
    exact throws_raise _ _ b
  · exact if_neg (by rw [hc, hall]; exact Bool.false_ne_true)
  · refine Machine.expression_value h rfl hall fun b _ => ?_
    unfold Machine.value Machine.assignment
    dsimp only
    rw [hop]
    exact throws_raise _ _ b

/-- An object literal with a large integer as a name. -/
def Expr.largeName : Expr := .object ⟨0, 10⟩ [.data (.bigInt ⟨1, 3⟩) (.constant ⟨5, 9⟩ .null)]

/-- The literal alone, as a root, is accepted without a warning and refused when it is evaluated. -/
theorem unwarned_largeName :
    (∃ analysis, analyze ⟨true, false⟩ (.expression .largeName) = .ok analysis ∧
      analysis.warnings = []) ∧
    ∃ o b, (Machine.ofDepth 2).load (.expression .largeName) (.ofString "\x7b1n: null\x7d")
        ⟨[], false, false⟩ .empty = .error (.thrown (.object o)) b ∧
      (b.object o).kind = .error .syntaxError :=
  ⟨⟨_, rfl, rfl⟩, _, _, rfl, rfl⟩

end Scriptlet
