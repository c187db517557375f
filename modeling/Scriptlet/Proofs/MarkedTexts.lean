import Scriptlet.Marked
import Scriptlet.Proofs.Blanks

/-!
# The grammar of marked texts

A marked text is blanks, an opening mark, an expression with blanks at both ends, a closing mark and
blanks again.  The expression is cut out from both ends, and whether it may be evaluated again is read
off the front alone.  Both agree on the one way to take the text apart: the marks are no blanks, and the
expression has one at each end.

## Main definitions

* `Wrapping` — a text taken apart.

## Main results

* `Wrapping.unique` — there is one way to take a text apart.
* `marked?_eq_some_iff`, `Wrapping.isRecursive_iff` — what the two readers find.
* `marked_by_wrapping` — **a text is marked if and only if it can be taken apart**, and the parts say
  what its expression is and whether it may be evaluated again.
-/

namespace Scriptlet

/-- A text taken apart: an expression in its marks, with blanks around them. -/
@[ext] structure Wrapping (raw : List Char) where
  /-- The blanks in front. -/
  front : List Char
  /-- What the opening mark has behind its first two characters. -/
  mark : List Char
  /-- The expression. -/
  inner : List Char
  /-- The blanks behind. -/
  back : List Char
  raw_eq : raw = front ++ (['<', '%'] ++ (mark ++ (inner ++ ['%', '>'] ++ back)))
  front_blank : ∀ c ∈ front, isWhiteSpace c = true
  mark_eq : mark = [] ∨ mark = ['~']
  inner_starts : ∃ c ∈ inner.head?, isWhiteSpace c = true
  inner_ends : ∃ c ∈ inner.getLast?, isWhiteSpace c = true
  back_blank : ∀ c ∈ back, isWhiteSpace c = true

variable {raw cs mark rest t : List Char}

/-! ### Readers of parts -/

theorem following?_eq_some : following? mark cs = some rest ↔ cs = mark ++ rest := by
  induction mark generalizing cs with
  | nil => rw [following?, Option.some.injEq, List.nil_append]
  | cons m mark ih =>
    cases cs with
    | nil => simp [following?]
    | cons c cs =>
      rw [following?, List.cons_append, List.cons.injEq]
      by_cases h : m = c
      · rw [if_pos h, ih, h, and_iff_right rfl]
      · rw [if_neg h]
        exact iff_of_false nofun fun heq => h heq.1.symm

theorem startsBlank_iff : startsBlank cs = true ↔ ∃ c ∈ cs.head?, isWhiteSpace c = true :=
  Option.any_eq_true ..

/-- What starts with a tilde does not start with a blank. -/
theorem not_startsBlank_tilde : ¬∃ c ∈ ('~' :: cs).head?, isWhiteSpace c = true := by
  rintro ⟨c, hc, hblank⟩
  cases hc
  exact absurd hblank (by decide)

/-- A tilde in front, if there is one, is taken off. -/
theorem exists_tilde (cs : List Char) :
    ∃ mark, (mark = [] ∨ mark = ['~']) ∧ cs = mark ++ (following? ['~'] cs).getD cs := by
  cases h : following? ['~'] cs with
  | none => exact ⟨[], .inl rfl, rfl⟩
  | some rest => exact ⟨['~'], .inr rfl, following?_eq_some.mp h⟩

/-- No more than one tilde is taken off in front of a blank. -/
theorem getD_following?_tilde (hmark : mark = [] ∨ mark = ['~'])
    (hstart : ∃ c ∈ cs.head?, isWhiteSpace c = true) :
    (following? ['~'] (mark ++ cs)).getD (mark ++ cs) = cs := by
  rcases hmark with rfl | rfl
  · have hnone : following? ['~'] cs = none := by
      refine Option.eq_none_iff_forall_ne_some.mpr fun rest hrest => ?_
      rw [following?_eq_some.mp hrest] at hstart
      exact not_startsBlank_tilde hstart
    rw [List.nil_append, hnone, Option.getD_none]
  · rw [following?_eq_some.mpr rfl, Option.getD_some]

/-- The expression is found in three steps: behind the opening mark, in front of the closing mark, and
with blanks at both ends. -/
theorem marked?_eq_bind (raw : List Char) :
    marked? raw = (following? ['<', '%'] (trimStart raw)).bind fun behind =>
      ((following? ['>', '%'] (trimEnd ((following? ['~'] behind).getD behind)).reverse).map
        List.reverse).bind fun inner =>
          if startsBlank inner && startsBlank inner.reverse then some inner else none := rfl

/-! ### Wrappings -/

namespace Wrapping

variable (w w' : Wrapping raw)

/-- The expression with what is behind it. -/
def closed : List Char := w.inner ++ ['%', '>'] ++ w.back

/-- The opening mark is behind the blanks in front. -/
theorem trimStart_eq : trimStart raw = ['<', '%'] ++ (w.mark ++ w.closed) := by
  have htrims : TrimsFront isWhiteSpace raw (['<', '%'] ++ (w.mark ++ w.closed)) := by
    refine ⟨w.front, w.raw_eq, w.front_blank, ?_⟩
    rintro c ⟨⟩
    decide
  exact htrims.eq_dropWhile.symm

theorem closed_starts : ∃ c ∈ w.closed.head?, isWhiteSpace c = true := by
  obtain ⟨c, hc, hblank⟩ := w.inner_starts
  exact ⟨c, List.mem_head?_append_of_mem_head? (List.mem_head?_append_of_mem_head? hc), hblank⟩

/-- The closing mark is in front of the blanks behind. -/
theorem trimEnd_closed : trimEnd w.closed = w.inner ++ ['%', '>'] := by
  have htrims : TrimsBack isWhiteSpace w.closed (w.inner ++ ['%', '>']) := by
    refine ⟨w.back, rfl, w.back_blank, ?_⟩
    intro c hc
    rw [List.getLast?_append_of_ne_nil _ (List.cons_ne_nil _ _)] at hc
    cases hc
    decide
  exact htrims.eq_rdropWhile.symm

/-- **There is one way to take a text apart.** -/
theorem unique : w = w' := by
  -- From the front: the blanks, the first two characters of the mark, and its tilde.
  have hbehind : w.mark ++ w.closed = w'.mark ++ w'.closed :=
    List.append_cancel_left (w.trimStart_eq.symm.trans w'.trimStart_eq)
  have hclosed : w.closed = w'.closed := by
    rw [← getD_following?_tilde w.mark_eq w.closed_starts, hbehind,
      getD_following?_tilde w'.mark_eq w'.closed_starts]
  have hmark : w.mark = w'.mark := by
    rw [hclosed] at hbehind
    exact List.append_cancel_right hbehind
  have hfront : w.front = w'.front := by
    refine List.append_cancel_right (w.raw_eq.symm.trans (w'.raw_eq.trans ?_))
    exact congrArg (fun cs => w'.front ++ (['<', '%'] ++ cs)) hbehind.symm
  -- From the back: the blanks, and then the closing mark.
  have hmarked : w.inner ++ ['%', '>'] = w'.inner ++ ['%', '>'] := by
    rw [← w.trimEnd_closed, ← w'.trimEnd_closed, hclosed]
  have hinner : w.inner = w'.inner := List.append_cancel_right hmarked
  have hback : w.back = w'.back := by
    unfold closed at hclosed
    rw [hinner] at hclosed
    exact List.append_cancel_left hclosed
  exact Wrapping.ext hfront hmark hinner hback

/-- The expression of a text that can be taken apart is found. -/
theorem marked?_eq : marked? raw = some w.inner := by
  have hopen : following? ['<', '%'] (trimStart raw) = some (w.mark ++ w.closed) :=
    following?_eq_some.mpr w.trimStart_eq
  have hclose : following? ['>', '%'] (trimEnd w.closed).reverse = some w.inner.reverse := by
    rw [w.trimEnd_closed, List.reverse_append]
    exact following?_eq_some.mpr rfl
  have hstarts := startsBlank_iff.mpr w.inner_starts
  have hends : startsBlank w.inner.reverse = true := by
    rw [startsBlank_iff, List.head?_reverse]
    exact w.inner_ends
  rw [marked?_eq_bind, hopen, Option.bind_some, getD_following?_tilde w.mark_eq w.closed_starts, hclose,
    Option.map_some, Option.bind_some, List.reverse_reverse, hstarts, hends]
  rfl

/-- The front of a text that can be taken apart says whether there is a tilde. -/
theorem isRecursive_iff : isRecursive raw = true ↔ w.mark = ['~'] := by
  unfold isRecursive
  rw [w.trimStart_eq]
  rcases w.mark_eq with hmark | hmark
  · have hnone : following? ['<', '%', '~'] (['<', '%'] ++ (w.mark ++ w.closed)) = none := by
      refine Option.eq_none_iff_forall_ne_some.mpr fun rest hrest => ?_
      rw [hmark, following?_eq_some] at hrest
      have heq : ['<', '%'] ++ w.closed = ['<', '%'] ++ ('~' :: rest) := hrest
      exact not_startsBlank_tilde (List.append_cancel_left heq ▸ w.closed_starts)
    rw [hnone, hmark]
    exact iff_of_false Bool.false_ne_true (List.cons_ne_nil _ _).symm
  · have hsome : following? ['<', '%', '~'] (['<', '%'] ++ (w.mark ++ w.closed)) = some w.closed := by
      rw [hmark]
      exact following?_eq_some.mpr rfl
    rw [hsome]
    exact iff_of_true (startsBlank_iff.mpr w.closed_starts) hmark

end Wrapping

/-- A text of which an expression is found can be taken apart. -/
theorem exists_wrapping (h : marked? raw = some t) : ∃ w : Wrapping raw, w.inner = t := by
  rw [marked?_eq_bind] at h
  obtain ⟨behind, hopen, h⟩ := Option.bind_eq_some_iff.mp h
  obtain ⟨_, hinner, h⟩ := Option.bind_eq_some_iff.mp h
  obtain ⟨reversed, hclose, rfl⟩ := Option.map_eq_some_iff.mp hinner
  obtain ⟨mark, hmark, hbehind⟩ := exists_tilde behind
  obtain ⟨front, hfront, hfront_blank, -⟩ := trimsFront_dropWhile isWhiteSpace raw
  obtain ⟨back, hback, hback_blank, -⟩ :=
    trimsBack_rdropWhile isWhiteSpace ((following? ['~'] behind).getD behind)
  have hopen : raw.dropWhile isWhiteSpace = ['<', '%'] ++ behind := following?_eq_some.mp hopen
  have hclose : ((following? ['~'] behind).getD behind).rdropWhile isWhiteSpace
      = reversed.reverse ++ ['%', '>'] := by
    have heq := congrArg List.reverse (following?_eq_some.mp hclose)
    rwa [List.reverse_append, trimEnd, List.reverse_reverse] at heq
  split at h
  · next hblank =>
    cases h
    rw [Bool.and_eq_true, startsBlank_iff, startsBlank_iff,
      List.head?_reverse (l := reversed.reverse)] at hblank
    refine ⟨⟨front, mark, reversed.reverse, back, ?_, hfront_blank, hmark, hblank.1, hblank.2,
      hback_blank⟩, rfl⟩
    rw [← hclose, ← hback, ← hbehind, ← hopen]
    exact hfront
  · cases h

theorem marked?_eq_some_iff : marked? raw = some t ↔ ∃ w : Wrapping raw, w.inner = t :=
  ⟨exists_wrapping, fun ⟨w, hw⟩ => hw ▸ w.marked?_eq⟩

/-- **A text is marked if and only if it can be taken apart** into blanks, an opening mark, an expression
with blanks at both ends, a closing mark and blanks.  There is only one way to do so; the expression is
the one that is found, and it may be evaluated again if the opening mark has a tilde. -/
theorem marked_by_wrapping (raw : List Char) :
    (∀ t, marked? raw = some t ↔ ∃ w : Wrapping raw, w.inner = t) ∧
      (isMarked raw = true ↔ Nonempty (Wrapping raw)) ∧
      (∀ w w' : Wrapping raw, w = w') ∧
      ∀ w : Wrapping raw, isRecursive raw = true ↔ w.mark = ['~'] := by
  refine ⟨fun t => marked?_eq_some_iff, ?_, fun w w' => w.unique w', fun w => w.isRecursive_iff⟩
  rw [isMarked, Option.isSome_iff_exists]
  constructor
  · rintro ⟨t, ht⟩
    obtain ⟨w, -⟩ := exists_wrapping ht
    exact ⟨w⟩
  · rintro ⟨w⟩
    exact ⟨w.inner, w.marked?_eq⟩

/-- Marks may stand in the expression, and a tilde behind its first blank belongs to it. -/
example : marked? "\n<% ~<% a %> %> ".toList = some " ~<% a %> ".toList ∧
    isRecursive "\n<% ~<% a %> %> ".toList = false := by decide

end Scriptlet
