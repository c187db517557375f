import Scriptlet.Proofs.Requests
import Scriptlet.Proofs.Resolution

/-!
# Sessions

A session begins with an agent that has nothing, and is whatever a host asks of it then.  All that is
said here is said of every session and of machines of every height.

## Main definitions

* `World.new` — the world of agents that have nothing.

## Main results

* `serve_tidied` — **removing environments that nothing reaches is never noticed**.
* `serve_order` — **the state is never found out of order**, and syntax is evaluated in the realm that
  knows its scopes.
* `serve_resolution` — **names are found where the analysis has found them**.
-/

namespace Scriptlet

/-- The world of two agents that have nothing. -/
def World.new (φ : RealmId → Filing) : World where
  object _ _ := False
  environment _ _ := False
  realm _ _ := False
  object_unique := ⟨fun _ _ _ h => h.elim, fun _ _ _ h => h.elim⟩
  environment_unique := ⟨fun _ _ _ h => h.elim, fun _ _ _ h => h.elim⟩
  realm_unique := ⟨fun _ _ _ h => h.elim, fun _ _ _ h => h.elim⟩
  isFunction _ := False
  plan _ := ⟨none, 0, fun _ => False⟩
  isBound _ _ := False
  globals _ := ⟨0⟩
  filing := φ

/-- Agents that have nothing agree. -/
theorem agrees_new (φ : RealmId → Filing) (isVerbose : Bool) :
    Agrees (World.new φ) (Stack.idle φ 0) (.new isVerbose) (.new isVerbose) where
  object := False.elim
  function := False.elim
  environments := ⟨False.elim, Environments.isTidy_empty, Environments.isTidy_empty, fun hx _ => nomatch hx⟩
  realm := False.elim
  method := fun m => .inr ⟨nofun, nofun⟩
  contexts_left := rfl
  contexts_right := rfl
  contexts := fun c hc => by cases hc
  joining_left := rfl
  joining_right := rfl
  joining := fun o ho => by cases ho
  realms_size := rfl
  filing := rfl
  size := rfl
  same := fun i hi => by cases hi
  known := fun i hi => by cases hi

variable {requests : List Request}

/-- The filings are those of the roots that are accepted, in their order. -/
theorem onFile_eq {i : Nat} {f : Filing} (h : (requests.filterMap (·.filing?))[i]? = some f) :
    onFile requests ⟨0 + i⟩ = f := by
  rw [Nat.zero_add]
  unfold onFile
  rw [List.getD_eq_getElem?_getD, h]
  rfl

/-- What is on file is true of all roots if it is so of those that are asked for and accepted. -/
theorem onFile_spec {P : Filing → Prop}
    (hnone : P ⟨.expression (.constant ⟨0, 0⟩ .null), ⟨true, false⟩, []⟩)
    (hload : ∀ p s, .load p ∈ requests →
      analyze ⟨p.root.isExpression, p.provisions.noVar⟩ p.root = .ok s →
      P ⟨p.root, ⟨p.root.isExpression, p.provisions.noVar⟩, s.supplied p.provisions.values⟩)
    (r : RealmId) : P (onFile requests r) := by
  unfold onFile
  rw [List.getD_eq_getElem?_getD]
  cases h : (requests.filterMap (·.filing?))[r.index]? with
  | none => exact hnone
  | some f =>
    obtain ⟨x, hx, hf⟩ := List.mem_filterMap.mp (List.mem_of_getElem? h)
    cases x with
    | load p =>
      change p.filing? = some f at hf
      unfold Program.filing? at hf
      dsimp only at hf
      split at hf
      · next s hs =>
        cases hf
        exact hload p s hx hs
      · cases hf
    | _ => cases hf

/-- All roots on file are accepted. -/
theorem isAccepted_onFile (requests : List Request) (r : RealmId) :
    (onFile requests r).IsAccepted := onFile_spec ⟨_, rfl⟩ (fun _ s _ hs => ⟨s, hs⟩) r

section Sessions

variable (n : Nat) (isVerbose : Bool) (requests : List (Request × Tidying))

/-- **Removing environments that nothing reaches is never noticed**: a host sees the same as if it had
never tidied the agent up. -/
theorem serve_tidied :
    serve (.ofDepth n) requests (.new isVerbose)
      = serve (.ofDepth n) (requests.map fun x => (x.1, .nothing)) (.new isVerbose) :=
  (serve_agrees (Machine.agree_ofDepth n) (by rw [List.map_map]; rfl) (fun _ _ => onFile_eq)
    (agrees_new (onFile (requests.map Prod.fst)) isVerbose)).1

variable {requests} in
/-- A machine that watches for a condition that always holds is never stopped. -/
theorem serve_watching {P : Condition} (hP : P.Holds (onFile (requests.map Prod.fst))) :
    serve (.watching P n) requests (.new isVerbose)
        = serve (.ofDepth n) requests (.new isVerbose) ∧
      ∀ x ∈ serve (.ofDepth n) requests (.new isVerbose), x.isBroken = false := by
  obtain ⟨heq, hbroken⟩ := serve_agrees (Machine.agree_watching hP n) rfl (fun _ _ => onFile_eq)
    (agrees_new (onFile (requests.map Prod.fst)) isVerbose)
  exact ⟨heq, heq ▸ hbroken⟩

/-- **The state is never found out of order**, and syntax is always evaluated in the realm that knows
its scopes. -/
theorem serve_order :
    serve (.watching (.order (onFile (requests.map Prod.fst))) n) requests (.new isVerbose)
        = serve (.ofDepth n) requests (.new isVerbose) ∧
      ∀ x ∈ serve (.ofDepth n) requests (.new isVerbose), x.isBroken = false :=
  serve_watching n isVerbose Condition.order_holds

/-- **Names are found where the analysis has found them**, whenever they are used. -/
theorem serve_resolution :
    serve (.watching (.resolution (onFile (requests.map Prod.fst))) n) requests (.new isVerbose)
        = serve (.ofDepth n) requests (.new isVerbose) ∧
      ∀ x ∈ serve (.ofDepth n) requests (.new isVerbose), x.isBroken = false :=
  serve_watching n isVerbose (Condition.resolution_holds (isAccepted_onFile _))

end Sessions

end Scriptlet
