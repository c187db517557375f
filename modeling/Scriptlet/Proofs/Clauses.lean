import Scriptlet.Proofs.Outcomes

/-!
# Clauses of a switch

The clauses of a switch are searched in two parts, those before the default clause and those behind
it.  This module gives the rule without the parts: the tests are evaluated in the order of the
clauses until one of them gives the value, and the clauses are run in their order from the one that
has been found, or else from the default clause wherever it stands.

## Main definitions

* `Machine.caseBlock` — what a switch does with the value of its subject.
* `selectors`, `startOf` — the tests with their places, and where the clauses are run from.
* `Searches`, `FallsThrough` — the search for a clause and the run of clauses, with the places that
  they come by.

## Main results

* `select_searches`, `selected_searches` — both parts are one search.
* `clauses_fallsThrough` — clauses are run without a gap.
* `caseBlock_searches` — **the rule of a switch**.
-/

namespace Scriptlet

open Eval

/-- Finds the clauses that are run for a value, and runs them. A switch does so inside a new environment
when it has evaluated its subject. -/
def Machine.caseBlock (m : Machine) (v : Value) (cases : List Case) : Eval Completion := do
  m.clauses (← m.selected v cases) .undefined

example (m : Machine) (place : Span) (subject : Expr) (cases : List Case) :
    m.switch place subject cases = (do
      let v ← m.expression subject
      let e ← blockEnvironment (← scopeAt place (Scope.ofCases cases))
      inEnvironment e (m.caseBlock v cases)) := rfl

/-- The tests of clauses with their places, which are counted from a number on; the default clause
has no test. -/
def selectors : List Case → Nat → List (Nat × Expr)
  | [], _ => []
  | c :: rest, i =>
    match c.test with
    | none => selectors rest (i + 1)
    | some e => (i, e) :: selectors rest (i + 1)

/-- The place that clauses are run from: the one that has been found, or else that of the default
clause, or else the end. -/
def startOf (cases : List Case) (found : Option Nat) : Nat :=
  found.getD (cases.findIdx (·.test.isNone))

variable {m : Machine} {v : Value} {a b : Agent} {i : Nat} {e : Expr} {c : Case} {rest : List Case}

/-- The search for the first test that gives a value, with the places of the tests that are
evaluated and the place that is found. -/
inductive Searches (m : Machine) (v : Value) : List (Nat × Expr) → Agent → List Nat →
    EStateM.Result Interrupt Agent (Option Nat) → Prop
  /-- There is no test left. -/
  | nothing {a : Agent} : Searches m v [] a [] (.ok none a)
  /-- The test gives the value. -/
  | found {i : Nat} {e : Expr} {l : List (Nat × Expr)} {w : Value} {a b : Agent}
      (he : m.expression e a = .ok w b) (hw : v.isStrictly w = true) :
      Searches m v ((i, e) :: l) a [i] (.ok (some i) b)
  /-- The test gives another value. -/
  | next {i : Nat} {e : Expr} {l : List (Nat × Expr)} {w : Value} {a b : Agent} {tested : List Nat}
      {r : EStateM.Result Interrupt Agent (Option Nat)}
      (he : m.expression e a = .ok w b) (hw : v.isStrictly w = false)
      (hrest : Searches m v l b tested r) : Searches m v ((i, e) :: l) a (i :: tested) r
  /-- The test gives no value. -/
  | fails {i : Nat} {e : Expr} {l : List (Nat × Expr)} {x : Interrupt} {a b : Agent}
      (he : m.expression e a = .error x b) : Searches m v ((i, e) :: l) a [i] (.error x b)

/-- The run of clauses, each of which is followed by the next one unless it is left, with the places
of the clauses that are run. -/
inductive FallsThrough (m : Machine) : List (Case × Nat) → Value → Agent → List Nat →
    EStateM.Result Interrupt Agent Completion → Prop
  /-- There is no clause left. -/
  | done {v : Value} {a : Agent} : FallsThrough m [] v a [] (.ok (.normal v) a)
  /-- The clause comes to its end. -/
  | next {c : Case} {i : Nat} {l : List (Case × Nat)} {v : Value} {d : Completion} {a b : Agent}
      {ran : List Nat} {r : EStateM.Result Interrupt Agent Completion}
      (hc : m.statements c.statements a = .ok d b) (hd : d.isAbrupt = false)
      (hrest : FallsThrough m l (d.value.getD v) b ran r) :
      FallsThrough m ((c, i) :: l) v a (i :: ran) r
  /-- The clause is left. -/
  | leaves {c : Case} {i : Nat} {l : List (Case × Nat)} {v : Value} {d : Completion} {a b : Agent}
      (hc : m.statements c.statements a = .ok d b) (hd : d.isAbrupt = true) :
      FallsThrough m ((c, i) :: l) v a [i] (.ok (d.withDefault v) b)
  /-- The clause is interrupted. -/
  | fails {c : Case} {i : Nat} {l : List (Case × Nat)} {v : Value} {x : Interrupt} {a b : Agent}
      (hc : m.statements c.statements a = .error x b) :
      FallsThrough m ((c, i) :: l) v a [i] (.error x b)

/-! ### Places of tests -/

theorem selectors_none (h : c.test = none) : selectors (c :: rest) i = selectors rest (i + 1) := by
  rw [selectors, h]

theorem selectors_some (h : c.test = some e) :
    selectors (c :: rest) i = (i, e) :: selectors rest (i + 1) := by
  rw [selectors, h]

theorem selectors_append (l l' : List Case) (i : Nat) :
    selectors (l ++ l') i = selectors l i ++ selectors l' (i + l.length) := by
  induction l generalizing i with
  | nil => rfl
  | cons c rest ih =>
    have hlength : i + (c :: rest).length = i + 1 + rest.length := by
      rw [List.length_cons]
      omega
    rw [List.cons_append, hlength]
    cases h : c.test with
    | none => rw [selectors_none h, selectors_none h, ih]
    | some e => rw [selectors_some h, selectors_some h, ih, List.cons_append]

/-- Tests have the places of their clauses. -/
theorem mem_selectors {cases : List Case} {j : Nat} (h : (j, e) ∈ selectors cases i) :
    i ≤ j ∧ ∃ c, cases[j - i]? = some c ∧ c.test = some e := by
  induction cases generalizing i with
  | nil => cases h
  | cons c rest ih =>
    have hrest : (j, e) ∈ selectors rest (i + 1) →
        i ≤ j ∧ ∃ d, (c :: rest)[j - i]? = some d ∧ d.test = some e := by
      intro h
      obtain ⟨hj, d, hd, he⟩ := ih h
      refine ⟨by omega, d, ?_, he⟩
      rw [show j - i = j - (i + 1) + 1 by omega, List.getElem?_cons_succ]
      exact hd
    cases ht : c.test with
    | none =>
      rw [selectors_none ht] at h
      exact hrest h
    | some e' =>
      rw [selectors_some ht] at h
      rcases List.mem_cons.mp h with heq | h
      · cases heq
        exact ⟨Nat.le_refl _, c, by rw [Nat.sub_self, List.getElem?_cons_zero], ht⟩
      · exact hrest h

/-- Tests are in the order of their clauses. -/
theorem pairwise_selectors (cases : List Case) (i : Nat) :
    ((selectors cases i).map Prod.fst).Pairwise (· < ·) := by
  induction cases generalizing i with
  | nil => exact .nil
  | cons c rest ih =>
    cases h : c.test with
    | none =>
      rw [selectors_none h]
      exact ih (i + 1)
    | some e =>
      rw [selectors_some h]
      refine .cons ?_ (ih (i + 1))
      intro j hj
      obtain ⟨⟨_, e'⟩, hmem, rfl⟩ := List.mem_map.mp hj
      have hle := (mem_selectors hmem).1
      exact Nat.lt_of_succ_le hle

/-! ### The search -/

namespace Searches

variable {l l' : List (Nat × Expr)} {tested tested' : List Nat}
  {r : EStateM.Result Interrupt Agent (Option Nat)}

/-- The tests that are evaluated are the first ones. -/
theorem isPrefix (h : Searches m v l a tested r) : tested <+: l.map Prod.fst := by
  induction h with
  | nothing => exact List.nil_prefix
  | found | fails => exact List.cons_prefix_cons.mpr ⟨rfl, List.nil_prefix⟩
  | next _ _ _ ih => exact List.cons_prefix_cons.mpr ⟨rfl, ih⟩

/-- A search that finds nothing is continued. -/
theorem append (h : Searches m v l a tested (.ok none b)) (h' : Searches m v l' b tested' r) :
    Searches m v (l ++ l') a (tested ++ tested') r := by
  generalize hr : EStateM.Result.ok none b = r' at h
  induction h with
  | nothing =>
    cases hr
    exact h'
  | found | fails => cases hr
  | next he hw _ ih => exact .next he hw (ih hr)

/-- A search that has an end does not come to what follows. -/
theorem append_left (h : Searches m v l a tested r) (hr : ∀ b, r ≠ .ok none b) :
    Searches m v (l ++ l') a tested r := by
  induction h with
  | nothing => exact absurd rfl (hr _)
  | found he hw => exact .found he hw
  | next he hw _ ih => exact .next he hw (ih hr)
  | fails he => exact .fails he

end Searches

/-- What a search in clauses gives: it is interrupted, finds nothing or finds the clause from which
the clauses are given. -/
inductive Selects (m : Machine) (v : Value) (cases : List Case) (i : Nat) (a : Agent)
    (tested : List Nat) : EStateM.Result Interrupt Agent (List Case) → Prop
  | fails {x : Interrupt} {b : Agent} (h : Searches m v (selectors cases i) a tested (.error x b)) :
      Selects m v cases i a tested (.error x b)
  | nothing {b : Agent} (h : Searches m v (selectors cases i) a tested (.ok none b)) :
      Selects m v cases i a tested (.ok [] b)
  | found {j : Nat} {c : Case} {rest : List Case} {b : Agent} (hj : cases.drop j = c :: rest)
      (h : Searches m v (selectors cases i) a tested (.ok (some (i + j)) b)) :
      Selects m v cases i a tested (.ok (c :: rest) b)

namespace Selects

variable {tested : List Nat} {r : EStateM.Result Interrupt Agent (List Case)}

/-- The default clause is passed over. -/
theorem skip (hc : c.test = none) (h : Selects m v rest (i + 1) a tested r) :
    Selects m v (c :: rest) i a tested r := by
  have hselectors : selectors (c :: rest) i = _ := selectors_none hc
  cases h with
  | fails h => exact .fails (hselectors ▸ h)
  | nothing h => exact .nothing (hselectors ▸ h)
  | @found j _ _ _ hj h =>
    have hplace : i + 1 + j = i + (j + 1) := by omega
    exact .found (j := j + 1) hj (hselectors ▸ hplace ▸ h)

/-- A clause whose test gives another value is passed over. -/
theorem next {w : Value} (hc : c.test = some e) (he : m.expression e a = .ok w b)
    (hw : v.isStrictly w = false) (h : Selects m v rest (i + 1) b tested r) :
    Selects m v (c :: rest) i a (i :: tested) r := by
  have hselectors : selectors (c :: rest) i = _ := selectors_some hc
  cases h with
  | fails h => exact .fails (hselectors ▸ .next he hw h)
  | nothing h => exact .nothing (hselectors ▸ .next he hw h)
  | @found j _ _ _ hj h =>
    have hplace : i + 1 + j = i + (j + 1) := by omega
    exact .found (j := j + 1) hj (hselectors ▸ hplace ▸ .next he hw h)

end Selects

/-- The clauses from the first one whose test gives a value are those from the one that a search
finds. -/
theorem select_searches (m : Machine) (v : Value) (cases : List Case) (i : Nat) (a : Agent) :
    ∃ tested, Selects m v cases i a tested (m.select v cases a) := by
  -- A default clause is passed over; the others are tested in their order.
  induction cases generalizing i a with
  | nil => exact ⟨[], .nothing .nothing⟩
  | cons c rest ih =>
    cases hc : c.test with
    | none =>
      have hselect : m.select v (c :: rest) = m.select v rest := by rw [Machine.select, hc]
      obtain ⟨tested, h⟩ := ih (i + 1) a
      exact ⟨tested, hselect ▸ .skip hc h⟩
    | some e =>
      have hselect : m.select v (c :: rest) = (do
          if v.isStrictly (← m.expression e) then return c :: rest else m.select v rest) := by
        rw [Machine.select, hc]
      rw [hselect]
      cases he : m.expression e a with
      | error x b =>
        refine ⟨[i], ?_⟩
        rw [bind_error he]
        exact .fails (selectors_some hc ▸ .fails he)
      | ok w b =>
        rw [bind_ok he]
        cases hw : v.isStrictly w with
        | true =>
          exact ⟨[i], .found (j := 0) rfl (selectors_some hc ▸ .found he hw)⟩
        | false =>
          obtain ⟨tested, h⟩ := ih (i + 1) b
          exact ⟨i :: tested, .next hc he hw h⟩

/-! ### Both parts -/

/-- A default clause is where the clauses are split. -/
theorem drop_startOf (cases : List Case) :
    cases.dropWhile (·.test.isSome) = cases.drop (startOf cases none) := by
  rw [List.dropWhile_eq_drop_findIdx_not]
  simp only [Option.not_isSome]
  rfl

theorem take_startOf (cases : List Case) :
    cases.takeWhile (·.test.isSome) = cases.take (startOf cases none) := by
  rw [List.takeWhile_eq_take_findIdx_not]
  simp only [Option.not_isSome]
  rfl

theorem le_length_of_drop {cases : List Case} {j : Nat} (h : cases.drop j = c :: rest) :
    j ≤ cases.length := by
  refine Nat.le_of_not_lt fun hlt => ?_
  rw [List.drop_eq_nil_of_le (Nat.le_of_lt hlt)] at h
  cases h

theorem test_of_drop_startOf {cases : List Case} (h : cases.drop (startOf cases none) = c :: rest) :
    c.test = none := by
  have hlt : startOf cases none < cases.length := by
    refine Nat.lt_of_not_le fun hle => ?_
    rw [List.drop_eq_nil_of_le hle] at h
    cases h
  have hc : cases[startOf cases none] = c := by
    rw [List.drop_eq_getElem_cons hlt] at h
    exact (List.cons.inj h).1
  have htest : (fun c : Case => c.test.isNone) cases[startOf cases none] = true :=
    List.findIdx_getElem (w := hlt)
  rw [← hc]
  exact Option.isNone_iff_eq_none.mp htest

/-- The clauses that are selected are those from the start that a search of all tests gives. -/
theorem selected_searches (m : Machine) (v : Value) (cases : List Case) (a : Agent) :
    ∃ tested r, Searches m v (selectors cases 0) a tested r ∧
      match r with
      | .error x b => m.selected v cases a = .error x b
      | .ok found b => startOf cases found ≤ cases.length ∧
          m.selected v cases a = .ok (cases.drop (startOf cases found)) b := by
  have hlength : startOf cases none ≤ cases.length := List.findIdx_le_length
  unfold Machine.selected
  -- The clauses are split where the default is: those in front are searched first.
  rw [take_startOf, drop_startOf]
  generalize hd : startOf cases none = d at hlength ⊢
  have hselectors : selectors cases 0
      = selectors (cases.take d) 0 ++ selectors (cases.drop d) (cases.take d).length := by
    rw [← Nat.zero_add (cases.take d).length, ← selectors_append, List.take_append_drop]
  rw [hselectors]
  obtain ⟨tested, h⟩ := select_searches m v (cases.take d) 0 a
  generalize hr : m.select v (cases.take d) a = r at h
  cases h with
  | fails h => exact ⟨tested, _, h.append_left nofun, bind_error hr⟩
  | @found j c rest b hj h =>
    have hle : j ≤ (cases.take d).length := le_length_of_drop hj
    have hbound : j ≤ cases.length := Nat.le_trans hle (List.length_take_le' d cases)
    have hsplit : cases.drop j = c :: rest ++ cases.drop d := by
      rw [← hj, ← List.drop_append_of_le_length hle, List.take_append_drop]
    rw [Nat.zero_add] at h
    refine ⟨tested, _, h.append_left nofun, hbound, (bind_ok hr).trans ?_⟩
    rw [startOf, Option.getD_some, hsplit]
    rfl
  -- None of them is met, so the search goes on behind the default, and falls back on it.
  | @nothing b h =>
    rw [bind_ok hr]
    cases hleft : cases.drop d with
    | nil =>
      rw [selectors, List.append_nil]
      refine ⟨tested, _, h, hd ▸ hlength, ?_⟩
      rw [hd, hleft]
      rfl
    | cons fallback after =>
      -- what the search begins with again is behind the default clause
      have htest : fallback.test = none := test_of_drop_startOf (hd ▸ hleft)
      have hplace : (cases.take d).length = d := by
        rw [List.length_take, Nat.min_eq_left hlength]
      rw [hplace, selectors_none htest]
      obtain ⟨tested', h'⟩ := select_searches m v after (d + 1) b
      generalize hr' : m.select v after b = r' at h'
      cases h' with
      | fails h' => exact ⟨_, _, h.append h', bind_error hr'⟩
      | nothing h' =>
        refine ⟨_, _, h.append h', hd ▸ hlength, (bind_ok hr').trans ?_⟩
        rw [hd, hleft]
        rfl
      | @found j c rest b hj h' =>
        have hafter : cases.drop (d + 1 + j) = c :: rest := by
          rw [← hj, Nat.add_assoc, ← List.drop_drop, hleft, Nat.add_comm 1 j, List.drop_succ_cons]
        refine ⟨_, _, h.append h', le_length_of_drop hafter, (bind_ok hr').trans ?_⟩
        rw [startOf, Option.getD_some, hafter]
        rfl

/-! ### The run -/

theorem Completion.withDefault_getD (d : Completion) (v : Value) :
    d.withDefault (d.value.getD v) = d.withDefault v := by
  unfold Completion.withDefault
  cases d.value <;> rfl

/-- Clauses keep their places when those before them are left out. -/
theorem drop_zipIdx (cases : List Case) {start : Nat} (h : start ≤ cases.length) :
    cases.zipIdx.drop start = (cases.drop start).zipIdx start := by
  have hlength : ((cases.take start).zipIdx).length = start := by
    rw [List.length_zipIdx, List.length_take, Nat.min_eq_left h]
  have hsplit : cases.zipIdx
      = (cases.take start).zipIdx ++ (cases.drop start).zipIdx (0 + (cases.take start).length) := by
    rw [← List.zipIdx_append, List.take_append_drop]
  rw [hsplit, List.drop_left' hlength, List.length_take, Nat.min_eq_left h, Nat.zero_add]

/-- Clauses are run one after the other. -/
theorem clauses_fallsThrough (m : Machine) (cases : List Case) (i : Nat) (v : Value) (a : Agent) :
    ∃ k ≤ cases.length,
      FallsThrough m (cases.zipIdx i) v a (List.range' i k) (m.clauses cases v a) := by
  induction cases generalizing i v a with
  | nil => exact ⟨0, Nat.le_refl _, .done⟩
  | cons c rest ih =>
    have hfirst : ∀ {r}, FallsThrough m ((c, i) :: rest.zipIdx (i + 1)) v a [i] r →
        ∃ k ≤ (c :: rest).length, FallsThrough m ((c :: rest).zipIdx i) v a (List.range' i k) r :=
      fun h => ⟨1, Nat.succ_le_succ (Nat.zero_le _), h⟩
    rw [Machine.clauses]
    cases hc : m.statements c.statements a with
    | error x b =>
      rw [bind_error hc]
      exact hfirst (.fails hc)
    | ok d b =>
      rw [bind_ok hc]
      cases hd : d.isAbrupt with
      | true => exact hfirst (d.withDefault_getD v ▸ .leaves hc hd)
      | false =>
        obtain ⟨k, hk, h⟩ := ih (i + 1) (d.value.getD v) b
        exact ⟨k + 1, Nat.succ_le_succ hk, .next hc hd h⟩

/-- **The rule of a switch**: the tests are evaluated in the order of the clauses, each at most once,
until the first one that gives the value; then the clauses are run in their order, each at most
once, from the one that has been found, or else from the default clause, to the end or to the first
one that is left. -/
theorem caseBlock_searches (m : Machine) (v : Value) (cases : List Case) (a : Agent) :
    ∃ tested r, Searches m v (selectors cases 0) a tested r ∧
      tested <+: (selectors cases 0).map Prod.fst ∧ tested.Pairwise (· < ·) ∧
      match r with
      | .error x b => m.caseBlock v cases a = .error x b
      | .ok found b =>
        let start := startOf cases found
        ∃ k, start + k ≤ cases.length ∧
          FallsThrough m (cases.zipIdx.drop start) .undefined b (List.range' start k)
            (m.caseBlock v cases a) := by
  obtain ⟨tested, r, hsearch, hselected⟩ := selected_searches m v cases a
  -- What has been tested is a front part of the selectors, whose places are in order.
  have hprefix := hsearch.isPrefix
  refine ⟨tested, r, hsearch, hprefix, (pairwise_selectors cases 0).sublist hprefix.sublist, ?_⟩
  unfold Machine.caseBlock
  cases r with
  | error x b => exact bind_error hselected
  | ok found b =>
    obtain ⟨hstart, hselected⟩ := hselected
    dsimp only
    generalize startOf cases found = start at hselected hstart ⊢
    rw [bind_ok hselected, drop_zipIdx cases hstart]
    obtain ⟨k, hk, h⟩ := clauses_fallsThrough m (cases.drop start) start .undefined b
    rw [List.length_drop] at hk
    exact ⟨k, by omega, h⟩

end Scriptlet
