import Scriptlet.Proofs.Naming
import Scriptlet.Proofs.Securing

/-!
# New environments for the rounds of a loop

A counting loop with names of its own goes on in a new environment after each round, into which the
variables are copied.  The new one is inside the same environment as the last one was, and the last one
is left behind: nothing that is being evaluated is inside of it any more, so that only closures which
were made in it can still change it.

## Main definitions

* `Agent.Renews` — an environment with copies of the variables of the last one comes in its place.
* `Agent.IsInRound`, `Agent.IsEnclosed` — code is being evaluated in the environment of a round.
* `Agent.Enters` — an agent is in a new environment inside a given one.

## Main results

* `copyVariables_cases` — variables are copied one after the other, until one has no value.
* `renewEnvironment_cases` — **the environment of a loop is renewed** if all names have values.
* `Agent.IsInRound.of_links` — a round stays one while code is run in it.
* `Agent.Renews.isInRound` — **the next round**: the environments of earlier ones are apart from it.
-/

namespace Scriptlet

open Eval

/-! ### The environment of the next round -/

/-- The second agent is the first one, but for one environment. -/
structure Agent.IsBut (a b : Agent) (e : EnvironmentId) : Prop where
  others : ∀ i, i ≠ e → b.environments.get? i = a.environments.get? i
  rest : b = { a with environments := b.environments }

namespace Agent.IsBut

variable {a b c : Agent} {e : EnvironmentId}

theorem refl (a : Agent) (e : EnvironmentId) : a.IsBut a e := ⟨fun _ _ => rfl, rfl⟩

theorem trans (h : a.IsBut b e) (h' : b.IsBut c e) : a.IsBut c e where
  others i hi := (h'.others i hi).trans (h.others i hi)
  rest := by
    have hrest := h'.rest
    rw [h.rest] at hrest
    exact hrest

theorem set (a : Agent) (e : EnvironmentId) (x : Environment) :
    a.IsBut { a with environments := a.environments.set e x } e where
  others _ hi := Environments.get?_set_of_ne hi x
  rest := rfl

end Agent.IsBut

/-- The environment has the variable of the other one, and its value if it has one; it may be changed. -/
def Environment.Copies (x y : Environment) (name : String) : Prop :=
  ∃ w, (x.find? name).bind (·.value) = some w ∧
    y.find? name = some { Variable.changing with value := some w }

section

variable {a : Agent} {last next : EnvironmentId} {x z : Environment} {name : String}

/-- **A variable is copied** if it has a value; it is an error if it has none. -/
theorem copyVariable_cases (hx : a.environments.get? last = some x)
    (hz : a.environments.get? next = some z) (hne : last ≠ next) (name : String) :
    (∃ b message, copyVariable last next name a = raise .referenceError message b ∧
      (x.find? name).bind (·.value) = none ∧ a.IsBut b next) ∨
    ∃ b y, copyVariable last next name a = .ok () b ∧ a.IsBut b next ∧
      b.environments.get? next = some y ∧ y.outer = z.outer ∧ x.Copies y name ∧
      ∀ n, n ≠ name → y.find? n = z.find? n := by
  have hcreate : createVariable next name .changing a = .ok ()
      { a with environments := a.environments.set next (z.insert name .changing) } :=
    updateEnvironment_apply hz _
  generalize hb : ({ a with environments := a.environments.set next (z.insert name .changing) } : Agent)
    = b at hcreate
  have hbut : a.IsBut b next := hb ▸ .set a next _
  have hlast : b.environments.get? last = some x := (hbut.others last hne).trans hx
  have hnext : b.environments.get? next = some (z.insert name .changing) := by
    rw [← hb]
    exact Environments.get?_set_self hz _
  -- The name is made in the next environment before it is read in the last one.
  unfold copyVariable
  rw [bind_ok hcreate]
  cases hw : (x.find? name).bind (·.value) with
  | none =>
    left
    have hread : readVariable last name b
        = raise .referenceError ("Cannot access '" ++ name ++ "' before initialization") b := by
      unfold readVariable
      rw [bind_ok (environmentAt_apply hlast), hw]
    exact ⟨b, _, bind_error hread, rfl, hbut⟩
  | some w =>
    right
    have hread : readVariable last name b = .ok w b := by
      unfold readVariable
      rw [bind_ok (environmentAt_apply hlast), hw]
      rfl
    have hfind : (z.insert name .changing).find? name = some .changing := by
      rw [Environment.find?_insert, if_pos rfl]
    have hinitialize : initializeVariable next name w b = .ok ()
        { b with environments := b.environments.set next ((z.insert name .changing).insert name
          { Variable.changing with value := some w }) } := by
      unfold initializeVariable
      rw [bind_ok (environmentAt_apply hnext), hfind]
      exact updateEnvironment_apply hnext _
    refine ⟨_, _, (bind_ok hread).trans hinitialize, hbut.trans (.set b next _),
      Environments.get?_set_self hnext _, rfl, ⟨w, hw, ?_⟩, fun n hn => ?_⟩
    · rw [Environment.find?_insert, if_pos rfl]
    · rw [Environment.find?_insert, if_neg hn.symm, Environment.find?_insert, if_neg hn.symm]

/-- **Variables are copied one after the other**, until one has no value. -/
theorem copyVariables_cases (hne : last ≠ next) (names : List String)
    (hx : a.environments.get? last = some x) (hz : a.environments.get? next = some z) :
    (∃ b message, names.forM (copyVariable last next) a = raise .referenceError message b ∧
      (∃ name ∈ names, (x.find? name).bind (·.value) = none) ∧ a.IsBut b next) ∨
    ∃ b y, names.forM (copyVariable last next) a = .ok () b ∧ a.IsBut b next ∧
      b.environments.get? next = some y ∧ y.outer = z.outer ∧ (∀ name ∈ names, x.Copies y name) ∧
      ∀ n, n ∉ names → y.find? n = z.find? n := by
  induction names generalizing a z with
  | nil => exact .inr ⟨a, z, rfl, .refl a next, hz, rfl, nofun, fun _ _ => rfl⟩
  | cons name names ih =>
    have hfirst : (name :: names).forM (copyVariable last next) a
        = (copyVariable last next name >>= fun _ => names.forM (copyVariable last next)) a := rfl
    rw [hfirst]
    obtain ⟨b, message, hb, hvalue, hbut⟩ | ⟨b, y, hb, hbut, hy, houter, hcopies, hothers⟩ :=
      copyVariable_cases hx hz hne name
    · exact .inl ⟨b, message, bind_error hb, ⟨name, List.mem_cons_self, hvalue⟩, hbut⟩
    · rw [bind_ok hb]
      obtain ⟨c, message, hc, ⟨n, hn, hvalue⟩, hbut'⟩ | ⟨c, u, hc, hbut', hu, houter', hcopies', hothers'⟩ :=
        ih ((hbut.others last hne).trans hx) hy
      · exact .inl ⟨c, message, hc, ⟨n, List.mem_cons_of_mem _ hn, hvalue⟩, hbut.trans hbut'⟩
      · refine .inr ⟨c, u, hc, hbut.trans hbut', hu, houter'.trans houter, fun n hn => ?_, fun n hn => ?_⟩
        · -- A name that comes again is copied again.
          by_cases hmem : n ∈ names
          · exact hcopies' n hmem
          · obtain rfl | hn := List.mem_cons.mp hn
            · obtain ⟨w, hw, hy⟩ := hcopies
              exact ⟨w, hw, (hothers' n hmem).trans hy⟩
            · exact absurd hn hmem
        · rw [List.mem_cons, not_or] at hn
          exact (hothers' n hn.2).trans (hothers n hn.1)

end

/-- The next environment of a loop is a new one inside the same one as the last.  It has the given names
with the values that they have in the last one, and no others; nothing else changes. -/
structure Agent.Renews (names : List String) (last next : EnvironmentId) (a b : Agent) : Prop where
  fresh : a.environments.get? next = none
  others : ∀ i, i ≠ next → b.environments.get? i = a.environments.get? i
  rest : b = withEnvironmentOf next { a with environments := b.environments }
  record : ∃ x y, a.environments.get? last = some x ∧ b.environments.get? next = some y ∧
    y.outer = x.outer ∧ (∀ name ∈ names, x.Copies y name) ∧ ∀ name, name ∉ names → y.find? name = none

section

variable {a : Agent} {c : Context} {rest : List Context} {x : Environment} {names : List String}

theorem Agent.isBut_allocate (a : Agent) (z : Environment) :
    a.IsBut { a with environments := (a.environments.allocate z).2 } (a.environments.allocate z).1 :=
  ⟨fun _ hi => Environments.get?_allocate_of_ne z hi, rfl⟩

/-- **The environment of a loop is renewed** if all names have values in the last one. -/
theorem renewEnvironment_cases (ha : a.environments.IsTidy) (hc : a.contexts = c :: rest)
    (hx : a.environments.get? c.environment = some x) (hnames : names ≠ []) :
    (∃ next b message, renewEnvironment names a = raise .referenceError message b ∧
      (∃ name ∈ names, (x.find? name).bind (·.value) = none) ∧
      a.environments.get? next = none ∧ a.IsBut b next) ∨
    ∃ next b, renewEnvironment names a = .ok () b ∧ a.Renews names c.environment next b := by
  generalize hz : (⟨x.outer, []⟩ : Environment) = z
  generalize hnext : (a.environments.allocate z).1 = next
  generalize hmade : ({ a with environments := (a.environments.allocate z).2 } : Agent) = made
  have hnew : newEnvironment x.outer a = .ok next made := by rw [← hnext, ← hmade, ← hz]; rfl
  have hbut : a.IsBut made next := by
    rw [← hnext, ← hmade]
    exact a.isBut_allocate z
  have hvacant : a.environments.get? next = none := hnext ▸ Environments.vacant_allocate ha z
  -- The next environment is not the last one, as its place was vacant.
  have hne : c.environment ≠ next := by
    intro heq
    rw [heq, hvacant] at hx
    cases hx
  have hlast : made.environments.get? c.environment = some x := (hbut.others _ hne).trans hx
  have hthere : made.environments.get? next = some z := by
    rw [← hnext, ← hmade]
    exact Environments.get?_allocate_self ha z
  have hrenew : renewEnvironment names a = (names.forM (copyVariable c.environment next) >>= fun _ =>
      setEnvironment next) made := by
    unfold renewEnvironment
    rw [if_pos (by simpa using hnames), bind_ok (environment_eq hc), bind_ok (environmentAt_apply hx),
      bind_ok hnew]
  rw [hrenew]
  obtain ⟨b, message, hb, hvalue, hbut'⟩ | ⟨b, y, hb, hbut', hy, houter, hcopies, hothers⟩ :=
    copyVariables_cases hne names hlast hthere
  · exact .inl ⟨next, b, message, bind_error hb, hvalue, hvacant, hbut.trans hbut'⟩
  · have hall := hbut.trans hbut'
    have hcontexts : b.contexts = c :: rest := by
      rw [hall.rest]
      exact hc
    have henvironments := environments_withEnvironmentOf next b
    refine .inr ⟨next, withEnvironmentOf next b, (bind_ok hb).trans (setEnvironment_eq hcontexts next), ?_⟩
    refine ⟨hvacant, fun i hi => ?_, ?_, x, y, hx, ?_, ?_, hcopies, fun name hname => ?_⟩
    · rw [henvironments]
      exact hall.others i hi
    · rw [henvironments, ← hall.rest]
    · rw [henvironments, hy]
    · rw [houter, ← hz]
    · rw [hothers name hname, ← hz]
      rfl

end

/-! ### Rounds -/

theorem Agent.contexts_of_places {a : Agent} {e : EnvironmentId} (h : a.places.head? = some e) :
    ∃ c rest, a.contexts = c :: rest ∧ c.environment = e := by
  unfold places at h
  cases hc : a.contexts with
  | nil =>
    rw [hc] at h
    cases h
  | cons c rest =>
    rw [hc] at h
    cases h
    exact ⟨c, rest, rfl, rfl⟩

/-- No environment is missing: what is not there is apart. -/
structure Agent.IsGrounded (a : Agent) : Prop where
  tidy : a.environments.IsTidy
  apart : ∀ e, a.environments.get? e = none → a.IsApart e

/-- Code is being evaluated in the environment of a round.  The given names stand for variables in the
given environments; the environments of earlier rounds are apart. -/
structure Agent.IsInRound (a : Agent) (names : List String)
    (place : String → EnvironmentId → EnvironmentId) (past : List EnvironmentId) (e : EnvironmentId) :
    Prop where
  tidy : a.environments.IsTidy
  here : a.places.head? = some e
  holder : ∀ name ∈ names, a.environments.holder name e = .environment (place name e)
  lasting : ∀ name ∈ names, ∃ v, a.environments.find? (place name e) name = some v ∧ v.isDeletable = false
  past : ∀ i ∈ past, a.IsApart i ∧ (a.environments.get? i).isSome

/-- The environment is neither around the given one nor around the code that waits for what is being
evaluated. -/
def Agent.Clears (a : Agent) (i : EnvironmentId) (home : Option EnvironmentId) : Prop :=
  a.environments.Misses i home ∧ ∀ c ∈ a.contexts.tail, a.environments.Misses i (some c.environment)

/-- The innermost environment is that of a loop inside another environment, and no other code that is
being evaluated is inside it. -/
structure Agent.IsEnclosed (a : Agent) (home : Option EnvironmentId) (e : EnvironmentId) : Prop where
  grounded : a.IsGrounded
  record : ∃ x, a.environments.get? e = some x ∧ x.outer = home
  clears : a.Clears e home

section

variable {α : Type} {a b : Agent} {names : List String} {place : String → EnvironmentId → EnvironmentId}
  {past : List EnvironmentId} {e next : EnvironmentId} {home : Option EnvironmentId}

theorem Agent.IsGrounded.of_links (h : a.IsGrounded) (hlinks : a.Links b)
    (hcontexts : b.contexts = a.contexts) : b.IsGrounded where
  tidy := (hlinks h.tidy).1
  apart e he := by
    refine (h.apart e (Option.eq_none_iff_forall_ne_some.mpr fun x hx => ?_)).of_links hlinks
      fun _ hc => hcontexts ▸ hc
    obtain ⟨y, hy, -⟩ := (hlinks h.tidy).2 e x hx
    rw [he] at hy
    cases hy

namespace Agent.IsInRound

variable (h : a.IsInRound names place past e)

include h

/-- **The names of a round** stand for the same variables in all of it. -/
theorem resolves {name : String} (hname : name ∈ names) :
    resolve name a = .ok (.variable (place name e) name) a := by
  obtain ⟨c, rest, hc, rfl⟩ := contexts_of_places h.here
  unfold resolve
  rw [bind_ok (environment_eq hc), bind_ok (get_apply a), h.holder name hname]
  rfl

/-- A round stays one while code is run that leaves the links, the names and the contexts. -/
theorem of_links (hlinks : a.Links b) (hnames : ∀ i, a.Names i b) (hcontexts : b.contexts = a.contexts) :
    b.IsInRound names place past e where
  tidy := (hlinks h.tidy).1
  here := by
    unfold places
    rw [hcontexts]
    exact h.here
  holder name hname := by
    obtain ⟨v, hv, hlasting⟩ := h.lasting name hname
    exact Environments.holder_of_closes (hlinks h.tidy).2 (fun i x hx => hnames i x h.tidy hx) hv hlasting
      (h.holder name hname)
  lasting name hname := by
    obtain ⟨v, hv, hlasting⟩ := h.lasting name hname
    obtain ⟨x, hx, hfind⟩ := Environments.get?_of_find? hv
    obtain ⟨y, hy, hstays⟩ := (hlinks h.tidy).2 _ x hx
    obtain ⟨w, hw, hlasting⟩ := hstays.lasting hfind hlasting
    exact ⟨w, by rw [Environments.find?_of_get? hy, hw], hlasting⟩
  past i hi := by
    obtain ⟨hapart, hthere⟩ := h.past i hi
    obtain ⟨x, hx⟩ := Option.isSome_iff_exists.mp hthere
    obtain ⟨y, hy, -⟩ := (hlinks h.tidy).2 i x hx
    exact ⟨hapart.of_links hlinks fun _ hc => hcontexts ▸ hc, Option.isSome_iff_exists.mpr ⟨y, hy⟩⟩

end Agent.IsInRound

namespace Agent.IsEnclosed

variable (h : a.IsEnclosed home e)

include h

theorem of_links (hlinks : a.Links b) (hcontexts : b.contexts = a.contexts) : b.IsEnclosed home e where
  grounded := h.grounded.of_links hlinks hcontexts
  record := by
    obtain ⟨x, hx, hhome⟩ := h.record
    obtain ⟨y, hy, hstays⟩ := (hlinks h.grounded.tidy).2 e x hx
    exact ⟨y, hy, hstays.outer.trans hhome⟩
  clears := by
    have hstay := (hlinks h.grounded.tidy).2
    exact ⟨h.clears.1.stay hstay, fun c hc => (h.clears.2 c (hcontexts ▸ hc)).stay hstay⟩

/-- What is apart is neither around the loop nor around the code that waits for it. -/
theorem clears_of_isApart {i : EnvironmentId} (hhere : a.places.head? = some e) (hi : a.IsApart i) :
    a.Clears i home := by
  obtain ⟨x, hx, rfl⟩ := h.record
  refine ⟨?_, fun c hc => hi.contexts c (List.mem_of_mem_tail hc)⟩
  obtain ⟨c, rest, hc, rfl⟩ := contexts_of_places hhere
  exact (hi.contexts c (hc ▸ List.mem_cons_self)).outer hx

end Agent.IsEnclosed

/-! ### Entering an environment -/

/-- The second agent is in a new environment inside the given one, instead of where the first one is. -/
structure Agent.Enters (a b : Agent) (home : Option EnvironmentId) (e : EnvironmentId) : Prop where
  fresh : a.environments.get? e = none
  others : ∀ i, i ≠ e → b.environments.get? i = a.environments.get? i
  contexts : ∃ c, b.contexts = c :: a.contexts.tail ∧ c.environment = e
  record : ∃ x, b.environments.get? e = some x ∧ x.outer = home

namespace Agent.Enters

variable (h : a.Enters b home e) (hlinks : a.Links b)

include h

theorem here : b.places.head? = some e := by
  obtain ⟨c, hc, rfl⟩ := h.contexts
  unfold places
  rw [hc]
  rfl

theorem ne {i : EnvironmentId} (hi : (a.environments.get? i).isSome) : i ≠ e := by
  rintro rfl
  rw [h.fresh] at hi
  cases hi

include hlinks

/-- What is neither around the new environment nor new is apart. -/
theorem isApart (ha : a.environments.IsTidy) {i : EnvironmentId} (hi : i ≠ e) (hclears : a.Clears i home) :
    b.IsApart i := by
  obtain ⟨htidy, hstay⟩ := hlinks ha
  obtain ⟨x, hx, rfl⟩ := h.record
  obtain ⟨c, hc, rfl⟩ := h.contexts
  refine ⟨htidy, fun d hd => ?_⟩
  rw [hc] at hd
  rcases List.mem_cons.mp hd with rfl | hd
  · exact .inside hx hi.symm (hclears.1.stay hstay)
  · exact (hclears.2 d hd).stay hstay

theorem isEnclosed (ha : a.IsGrounded) (hclears : ∀ i, a.IsApart i → a.Clears i home) :
    b.IsEnclosed home e := by
  obtain ⟨htidy, hstay⟩ := hlinks ha.tidy
  obtain ⟨x, hx, hhome⟩ := h.record
  obtain ⟨c, hc, -⟩ := h.contexts
  obtain ⟨haround, hcallers⟩ := hclears e (ha.apart e h.fresh)
  refine ⟨⟨htidy, fun i hi => ?_⟩, ⟨x, hx, hhome⟩, haround.stay hstay, fun d hd => ?_⟩
  · have hne : i ≠ e := by
      rintro rfl
      rw [hx] at hi
      cases hi
    have hvacant : a.environments.get? i = none := by rw [← h.others i hne, hi]
    exact h.isApart hlinks ha.tidy hne (hclears i (ha.apart i hvacant))
  · rw [hc, List.tail_cons] at hd
    exact (hcallers d hd).stay hstay

end Agent.Enters

namespace Agent.Renews

variable (hr : a.Renews names e next b) (henclosed : a.IsEnclosed home e) (hhere : a.places.head? = some e)

include hr henclosed hhere

theorem enters : a.Enters b home next := by
  obtain ⟨c, rest, hc, rfl⟩ := contexts_of_places hhere
  obtain ⟨x, y, hx, hy, houter, -⟩ := hr.record
  obtain ⟨x', hx', hhome⟩ := henclosed.record
  cases hx.symm.trans hx'
  refine ⟨hr.fresh, hr.others, ⟨{ c with environment := next }, ?_, rfl⟩, y, hy, houter.trans hhome⟩
  rw [hr.rest]
  unfold withEnvironmentOf
  dsimp only
  rw [hc]
  rfl

variable (hlinks : a.Links b)

include hlinks

theorem isEnclosed : b.IsEnclosed home next :=
  (hr.enters henclosed hhere).isEnclosed hlinks henclosed.grounded fun _ => henclosed.clears_of_isApart hhere

/-- **The next round**: the environment of the last one is apart now. -/
theorem isInRound (h : a.IsInRound names place past e) (hplace : ∀ name, place name next = next) :
    b.IsInRound names place (e :: past) next := by
  obtain ⟨x, y, hx, hy, -, hcopies, -⟩ := hr.record
  have henters := hr.enters henclosed hhere
  have hthere : ∀ i, (a.environments.get? i).isSome → (b.environments.get? i).isSome := fun i hi => by
    rwa [hr.others i (henters.ne hi)]
  refine ⟨(hlinks h.tidy).1, henters.here, fun name hname => ?_, fun name hname => ?_, fun i hi => ?_⟩
  · obtain ⟨w, -, hw⟩ := hcopies name hname
    rw [hplace]
    exact Environments.holder_of_has hy (by rw [Environment.has, hw]; rfl)
  · obtain ⟨w, -, hw⟩ := hcopies name hname
    exact ⟨_, by rw [hplace, Environments.find?_of_get? hy, hw], rfl⟩
  · rcases List.mem_cons.mp hi with rfl | hi
    · have hi : (a.environments.get? i).isSome := Option.isSome_iff_exists.mpr ⟨x, hx⟩
      refine ⟨henters.isApart hlinks h.tidy (henters.ne hi) henclosed.clears, hthere i hi⟩
    · obtain ⟨hapart, hi⟩ := h.past i hi
      exact ⟨henters.isApart hlinks h.tidy (henters.ne hi) (henclosed.clears_of_isApart hhere hapart),
        hthere i hi⟩

end Agent.Renews

end

end Scriptlet
