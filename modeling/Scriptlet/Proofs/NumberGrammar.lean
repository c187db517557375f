import Scriptlet.Proofs.Blanks

/-!
# The grammar of numbers in texts

A text denotes a number if it is a decimal literal with or without a sign, the word for infinity
included, or a literal of another radix, which has no sign.  The grammar relates each literal to the
number that it denotes.

Decimal literals are read from front to back, and as much as possible is taken: first digits, then a
point with more digits, then an exponent, if there are digits in it.  A literal that stands in front is
therefore in front of what is taken, however it may end.

## Main definitions

* `IsDecimal`, `IsSigned` — decimal literals.
* `IsRadixLiteral` — literals with a mark of the radix.
* `IsNumeric` — all of them.

## Main results

* `readLiteral?_longest`, `readLiteral?_none` — **the longest decimal literal in front is read**.
* `IsDecimal.read` — a decimal literal is read as a whole.
* `IsSigned.unique` — a decimal literal denotes one number.
-/

namespace Scriptlet

/-! ### Literals -/

/-- Digits, at least one. -/
def AreDigits (ds : List Char) : Prop := ds ≠ [] ∧ ∀ c ∈ ds, isDigit c = true

/-- A sign or none, and whether it is a minus. -/
inductive IsSign : List Char → Bool → Prop
  | absent : IsSign [] false
  | plus : IsSign ['+'] false
  | minus : IsSign ['-'] true

/-- An exponent part or none, and the exponent. -/
inductive IsExponent : List Char → Int → Prop
  | absent : IsExponent [] 0
  | marked {mark : Char} {sign ds : List Char} {negative : Bool} (hmark : mark = 'e' ∨ mark = 'E')
      (hsign : IsSign sign negative) (hds : AreDigits ds) :
      IsExponent (mark :: (sign ++ ds)) (if negative then -digitsValue ds else digitsValue ds)

/-- A decimal literal without sign that denotes `n · 10 ^ k`: digits, digits with a point behind them
or among them, or digits with a point in front; each with an exponent part or without. -/
inductive IsDecimal : List Char → Nat → Int → Prop
  | whole {ds es : List Char} {k : Int} (hds : AreDigits ds) (hes : IsExponent es k) :
      IsDecimal (ds ++ es) (digitsValue ds) k
  | point {ds fs es : List Char} {k : Int} (hds : AreDigits ds) (hfs : ∀ c ∈ fs, isDigit c = true)
      (hes : IsExponent es k) :
      IsDecimal (ds ++ '.' :: (fs ++ es)) (digitsValue (ds ++ fs)) (k - fs.length)
  | fraction {fs es : List Char} {k : Int} (hfs : AreDigits fs) (hes : IsExponent es k) :
      IsDecimal ('.' :: (fs ++ es)) (digitsValue fs) (k - fs.length)

/-- The word for infinity or a decimal literal without sign, and the number. -/
inductive IsUnsigned : List Char → Float → Prop
  | infinity : IsUnsigned infinityWord Double.infinity
  | decimal {cs : List Char} {n : Nat} {k : Int} (h : IsDecimal cs n k) :
      IsUnsigned cs (Decimal.value n k)

/-- The word for infinity or a decimal literal, with a sign or without, and the number. -/
inductive IsSigned : List Char → Float → Prop
  | mk {sign cs : List Char} {negative : Bool} {x : Float} (hsign : IsSign sign negative)
      (h : IsUnsigned cs x) : IsSigned (sign ++ cs) (Double.withSign negative x)

/-- The letter behind the zero that announces a radix. -/
def IsMark (mark : Char) (radix : Nat) : Prop :=
  (mark, radix) ∈ [('x', 16), ('X', 16), ('o', 8), ('O', 8), ('b', 2), ('B', 2)]

/-- Characters that are digits of a radix, at least one, and the digits. -/
def AreDigitsOf (radix : Nat) (cs : List Char) (ds : List Nat) : Prop :=
  cs ≠ [] ∧ cs.map (Radix.digit? radix) = ds.map some

/-- A literal of another radix, with the radix and the digits. -/
inductive IsRadixLiteral : List Char → Nat → List Nat → Prop
  | mk {mark : Char} {radix : Nat} {cs : List Char} {ds : List Nat} (hmark : IsMark mark radix)
      (hcs : AreDigitsOf radix cs ds) : IsRadixLiteral ('0' :: mark :: cs) radix ds

/-- The text is the literal of a number. -/
def IsNumeric (cs : List Char) : Prop :=
  (∃ x, IsSigned cs x) ∨ ∃ radix ds, IsRadixLiteral cs radix ds

/-! ### Runs in front -/

section Runs

variable {α : Type} {p : α → Bool} {xs ys zs : List α}

/-- Elements with a property, with others behind them, are taken as one run. -/
theorem takeWhile_run (hxs : ∀ x ∈ xs, p x = true) (hys : ∀ y ∈ ys.head?, p y = false) :
    (xs ++ ys).takeWhile p = xs ∧ (xs ++ ys).dropWhile p = ys := by
  rw [List.takeWhile_append_of_pos hxs, List.dropWhile_append_of_pos hxs, dropWhile_of_head hys]
  cases ys with
  | nil => exact ⟨by rw [List.takeWhile_nil, List.append_nil], rfl⟩
  | cons y ys =>
    rw [List.takeWhile_cons_of_neg (Bool.eq_false_iff.mp (hys y rfl)), List.append_nil]
    exact ⟨rfl, rfl⟩

/-- A run in front is part of the longest one; if there is more behind it, it is the longest one. -/
theorem run_front (hxs : ∀ x ∈ xs, p x = true) (hys : ∀ y ∈ ys.head?, p y = false)
    (h : xs ++ ys <+: zs) :
    xs <+: zs.takeWhile p ∧ (ys ≠ [] → xs = zs.takeWhile p ∧ ys <+: zs.dropWhile p) := by
  obtain ⟨rest, rfl⟩ := h
  rw [List.append_assoc, List.takeWhile_append_of_pos hxs, List.dropWhile_append_of_pos hxs]
  refine ⟨List.prefix_append _ _, fun hne => ?_⟩
  cases ys with
  | nil => exact absurd rfl hne
  | cons y ys =>
    have hy := Bool.eq_false_iff.mp (hys y rfl)
    rw [List.cons_append, List.takeWhile_cons_of_neg hy, List.append_nil,
      List.dropWhile_cons_of_neg hy]
    exact ⟨rfl, List.prefix_append (y :: ys) rest⟩

end Runs

/-! ### Exponents -/

section Exponents

variable {cs ds es sign : List Char} {k : Int} {negative : Bool} {c : Char}

theorem isDigit_iff : isDigit c = true ↔ 48 ≤ c.toNat ∧ c.toNat ≤ 57 := by
  rw [isDigit, Bool.and_eq_true, decide_eq_true_eq, decide_eq_true_eq]
  exact Iff.rfl

/-- A sign is read if no sign is behind it. -/
theorem IsSign.read (h : IsSign sign negative) (hcs : ∀ c ∈ cs.head?, c ≠ '+' ∧ c ≠ '-') :
    readSign (sign ++ cs) = (negative, cs) := by
  cases h with
  | plus => rfl
  | minus => rfl
  | absent =>
    rw [List.nil_append]
    unfold readSign
    split
    next => exact absurd rfl (hcs _ rfl).1
    next => exact absurd rfl (hcs _ rfl).2
    next => rfl

theorem readSign_spec (cs : List Char) :
    ∃ sign, cs = sign ++ (readSign cs).2 ∧ IsSign sign (readSign cs).1 := by
  unfold readSign
  split
  next => exact ⟨['+'], rfl, .plus⟩
  next => exact ⟨['-'], rfl, .minus⟩
  next => exact ⟨[], rfl, .absent⟩

theorem not_sign_of_digit (h : isDigit c = true) : c ≠ '+' ∧ c ≠ '-' := by
  constructor <;>
  · rintro rfl
    exact absurd h (by decide)

theorem AreDigits.head (h : AreDigits ds) : ∀ c ∈ (ds ++ es).head?, isDigit c = true := by
  obtain ⟨hne, hds⟩ := h
  cases ds with
  | nil => exact absurd rfl hne
  | cons d ds =>
    intro c hc
    rw [List.cons_append, List.head?_cons, Option.mem_some_iff] at hc
    exact hc ▸ hds d List.mem_cons_self

theorem IsExponent.head (h : IsExponent es k) : ∀ c ∈ es.head?, c = 'e' ∨ c = 'E' := by
  cases h with
  | absent => exact fun c hc => nomatch hc
  | marked hmark hsign hds =>
    intro c hc
    rw [List.head?_cons, Option.mem_some_iff] at hc
    exact hc ▸ hmark

/-- What follows digits as an exponent is no digit. -/
theorem IsExponent.not_digit (h : IsExponent es k) : ∀ c ∈ es.head?, isDigit c = false := by
  intro c hc
  rcases h.head c hc with rfl | rfl <;> rfl

/-- An exponent with nothing behind it is read. -/
theorem IsExponent.read (h : IsExponent es k) : readExponent es = (k, []) := by
  cases h with
  | absent => rfl
  | @marked mark sign ds negative hmark hsign hds =>
    have htake := List.takeWhile_eq_self_iff.mpr hds.2
    have hdrop := List.dropWhile_eq_nil_iff.mpr hds.2
    have hhead : ∀ c ∈ (ds ++ []).head?, c ≠ '+' ∧ c ≠ '-' := fun c hc =>
      not_sign_of_digit (hds.head c hc)
    rw [List.append_nil] at hhead
    have hmarked : (decide (mark = 'e') || decide (mark = 'E')) = true := by
      rwa [Bool.or_eq_true, decide_eq_true_eq, decide_eq_true_eq]
    have hsome : ds.isEmpty = false := Bool.eq_false_iff.mpr fun h => hds.1 (List.isEmpty_iff.mp h)
    rw [readExponent, if_pos hmarked, hsign.read hhead]
    simp only [htake, hdrop, hsome, if_neg Bool.false_ne_true]

theorem readExponent_marked (hc : c = 'e' ∨ c = 'E') (cs : List Char) :
    readExponent (c :: cs) = if ((readSign cs).2.takeWhile isDigit).isEmpty then (0, c :: cs)
      else (if (readSign cs).1 then -(digitsValue ((readSign cs).2.takeWhile isDigit) : Int)
        else digitsValue ((readSign cs).2.takeWhile isDigit), (readSign cs).2.dropWhile isDigit) := by
  rw [readExponent, if_pos (by rwa [Bool.or_eq_true, decide_eq_true_eq, decide_eq_true_eq])]

theorem readExponent_unmarked (hcs : ∀ c ∈ cs.head?, ¬(c = 'e' ∨ c = 'E')) :
    readExponent cs = (0, cs) := by
  cases cs with
  | nil => rfl
  | cons c cs =>
    rw [readExponent, if_neg]
    rw [Bool.or_eq_true, decide_eq_true_eq, decide_eq_true_eq]
    exact hcs c rfl

/-- The sign in front of digits is the one that is read. -/
theorem IsSign.of_front (hsign : IsSign sign negative) (hds : AreDigits ds)
    (h : sign ++ ds <+: cs) : cs = sign ++ (readSign cs).2 ∧ ds <+: (readSign cs).2 := by
  obtain ⟨rest, rfl⟩ := h
  rw [List.append_assoc, hsign.read fun c hc => not_sign_of_digit (hds.head c hc)]
  exact ⟨rfl, List.prefix_append ds rest⟩

theorem AreDigits.isEmpty_takeWhile (hds : AreDigits ds) (h : ds <+: cs) :
    (cs.takeWhile isDigit).isEmpty = false := by
  obtain ⟨rest, rfl⟩ := h
  rw [List.takeWhile_append_of_pos hds.2, Bool.eq_false_iff]
  intro hempty
  exact hds.1 (List.append_eq_nil_iff.mp (List.isEmpty_iff.mp hempty)).1

/-- **As long an exponent as possible is read.** -/
theorem readExponent_longest (cs : List Char) :
    ∃ es, cs = es ++ (readExponent cs).2 ∧ IsExponent es (readExponent cs).1 ∧
      ∀ fs j, IsExponent fs j → fs <+: cs → fs <+: es := by
  by_cases hcs : ∀ c ∈ cs.head?, ¬(c = 'e' ∨ c = 'E')
  · rw [readExponent_unmarked hcs]
    refine ⟨[], rfl, .absent, fun fs j hfs hstart => ?_⟩
    cases hfs with
    | absent => exact List.nil_prefix
    | marked hmark hsign hds =>
      obtain ⟨tail, rfl⟩ := hstart
      exact absurd hmark (hcs _ rfl)
  · obtain ⟨c, rest, hc, rfl⟩ : ∃ c rest, (c = 'e' ∨ c = 'E') ∧ cs = c :: rest := by
      push Not at hcs
      obtain ⟨c, hc, hmark⟩ := hcs
      obtain ⟨rest, rfl⟩ := List.head?_eq_some_iff.mp hc
      exact ⟨c, rest, hmark, rfl⟩
    rw [readExponent_marked hc]
    obtain ⟨sign, hrest, hsign⟩ := readSign_spec rest
    split
    next hempty =>
      -- A mark without digits behind it is given back, and so is the sign.
      refine ⟨[], rfl, .absent, fun fs j hfs hstart => ?_⟩
      cases hfs with
      | absent => exact List.nil_prefix
      | marked hmark hsign' hds =>
        have hstart := hsign'.of_front hds (List.cons_prefix_cons.mp hstart).2
        rw [hds.isEmpty_takeWhile hstart.2] at hempty
        exact absurd hempty Bool.false_ne_true
    next hsome =>
      have hds : AreDigits ((readSign rest).2.takeWhile isDigit) :=
        ⟨fun hnil => hsome (List.isEmpty_iff.mpr hnil), fun _ hd => List.mem_takeWhile_imp hd⟩
      refine ⟨c :: (sign ++ (readSign rest).2.takeWhile isDigit), ?_, .marked hc hsign hds,
        fun fs j hfs hstart => ?_⟩
      · rw [List.cons_append, List.append_assoc, List.takeWhile_append_dropWhile, ← hrest]
      · cases hfs with
        | absent => exact List.nil_prefix
        | @marked mark sign' ds' _ hmark hsign' hds' =>
          obtain ⟨hmark, hstart⟩ := List.cons_prefix_cons.mp hstart
          obtain ⟨hrest', hdigits⟩ := hsign'.of_front hds' hstart
          have hsame : sign' = sign := List.append_cancel_right (hrest'.symm.trans hrest)
          rw [← List.append_nil ds'] at hdigits
          have hnil : ∀ y ∈ ([] : List Char).head?, isDigit y = false := fun y hy => nomatch hy
          have hlongest := (run_front hds'.2 hnil hdigits).1
          rw [hmark, hsame, List.cons_prefix_cons, List.prefix_append_right_inj]
          exact ⟨rfl, hlongest⟩

end Exponents

/-! ### Decimal literals -/

section Decimals

variable {cs more rest p : List Char} {n : Nat} {k : Int} {l : Literal}

theorem readLiteral?_point (h : cs.dropWhile isDigit = '.' :: more) :
    readLiteral? cs =
      if (cs.takeWhile isDigit).isEmpty && (more.takeWhile isDigit).isEmpty then none
      else some (⟨cs.takeWhile isDigit, more.takeWhile isDigit,
        (readExponent (more.dropWhile isDigit)).1⟩, (readExponent (more.dropWhile isDigit)).2) := by
  rw [readLiteral?, h]
  rfl

theorem readLiteral?_whole (h : ∀ c ∈ (cs.dropWhile isDigit).head?, c ≠ '.') :
    readLiteral? cs =
      if (cs.takeWhile isDigit).isEmpty then none
      else some (⟨cs.takeWhile isDigit, [], (readExponent (cs.dropWhile isDigit)).1⟩,
        (readExponent (cs.dropWhile isDigit)).2) := by
  rw [readLiteral?]
  cases hrest : cs.dropWhile isDigit with
  | nil => simp
  | cons c more =>
    have hc : c ≠ '.' := h c (by rw [hrest]; rfl)
    simp [hc]

theorem point_not_digit (cs : List Char) : ∀ c ∈ ('.' :: cs).head?, isDigit c = false := fun c hc => by
  cases hc
  rfl

/-- Behind the digits in front there is a point, or there is none. -/
theorem point_cases (cs : List Char) :
    (∃ more, cs.dropWhile isDigit = '.' :: more) ∨ ∀ c ∈ (cs.dropWhile isDigit).head?, c ≠ '.' := by
  cases h : cs.dropWhile isDigit with
  | nil => exact .inr fun c hc => nomatch hc
  | cons c more =>
    by_cases hc : c = '.'
    · exact .inl ⟨more, by rw [hc]⟩
    · exact .inr fun d hd => by rwa [← Option.mem_some_iff.mp hd]

/-- Digits with an exponent in front are part of all digits in front with the longest exponent. -/
theorem digits_exponent_front {ds es gs : List Char} (hds : ∀ c ∈ ds, isDigit c = true)
    (hes : IsExponent es k) (h : ds ++ es <+: cs)
    (hlongest : ∀ fs j, IsExponent fs j → fs <+: cs.dropWhile isDigit → fs <+: gs) :
    ds ++ es <+: cs.takeWhile isDigit ++ gs := by
  obtain ⟨hrun, hmore⟩ := run_front hds hes.not_digit h
  by_cases hnil : es = []
  · rw [hnil, List.append_nil]
    exact hrun.trans (List.prefix_append _ _)
  · obtain ⟨hall, hes'⟩ := hmore hnil
    rw [hall, List.prefix_append_right_inj]
    exact hlongest es k hes hes'

/-- With a point behind the digits in front, a literal in front takes no more than the digits on both
sides of the point and the longest exponent. -/
theorem IsDecimal.front_point {gs : List Char} (hp : IsDecimal p n k) (h : p <+: cs)
    (hmore : cs.dropWhile isDigit = '.' :: more)
    (hlongest : ∀ fs j, IsExponent fs j → fs <+: more.dropWhile isDigit → fs <+: gs) :
    p <+: cs.takeWhile isDigit ++ '.' :: (more.takeWhile isDigit ++ gs) := by
  cases hp with
  | @whole ds es _ hds hes =>
    obtain ⟨hrun, hrest⟩ := run_front hds.2 hes.not_digit h
    by_cases hnil : es = []
    · rw [hnil, List.append_nil]
      exact hrun.trans (List.prefix_append _ _)
    · -- Where the point stands no exponent can begin.
      obtain ⟨e, es, rfl⟩ := List.exists_cons_of_ne_nil hnil
      have hdot := (hrest hnil).2
      rw [hmore, List.cons_prefix_cons] at hdot
      rcases hes.head e rfl with rfl | rfl <;> exact absurd hdot.1 (by decide)
  | point hds hfs hes =>
    obtain ⟨hall, hrest⟩ := (run_front hds.2 (point_not_digit _) h).2 (List.cons_ne_nil _ _)
    rw [hmore, List.cons_prefix_cons] at hrest
    rw [hall, List.prefix_append_right_inj, List.cons_prefix_cons]
    exact ⟨rfl, digits_exponent_front hfs hes hrest.2 hlongest⟩
  | fraction hfs hes =>
    rw [← List.nil_append ('.' :: _)] at h
    obtain ⟨hall, hrest⟩ :=
      (run_front (List.forall_mem_nil _) (point_not_digit _) h).2 (List.cons_ne_nil _ _)
    rw [hmore, List.cons_prefix_cons] at hrest
    rw [← hall, List.nil_append, List.cons_prefix_cons]
    exact ⟨rfl, digits_exponent_front hfs.2 hes hrest.2 hlongest⟩

/-- Without a point, it takes no more than the digits and the longest exponent behind them. -/
theorem IsDecimal.front_whole {gs : List Char} (hp : IsDecimal p n k) (h : p <+: cs)
    (hwhole : ∀ c ∈ (cs.dropWhile isDigit).head?, c ≠ '.')
    (hlongest : ∀ fs j, IsExponent fs j → fs <+: cs.dropWhile isDigit → fs <+: gs) :
    p <+: cs.takeWhile isDigit ++ gs := by
  have hdot : ∀ {ds fs : List Char}, (∀ c ∈ ds, isDigit c = true) → ¬ds ++ '.' :: fs <+: cs := by
    intro ds fs hds h
    obtain ⟨tail, htail⟩ := ((run_front hds (point_not_digit fs) h).2 (List.cons_ne_nil _ _)).2
    exact hwhole '.' (by rw [← htail]; rfl) rfl
  cases hp with
  | whole hds hes => exact digits_exponent_front hds.2 hes h hlongest
  | point hds hfs hes => exact absurd h (hdot hds.2)
  | fraction hfs hes => exact absurd h (hdot (List.forall_mem_nil _))

/-- **The longest decimal literal in front is read.** -/
theorem readLiteral?_longest (h : readLiteral? cs = some (l, rest)) :
    ∃ p, cs = p ++ rest ∧
      IsDecimal p (digitsValue (l.whole ++ l.fraction)) (l.exponent - l.fraction.length) ∧
      ∀ q n k, IsDecimal q n k → q <+: cs → q <+: p := by
  have hdigits : ∀ {cs : List Char}, ∀ c ∈ cs.takeWhile isDigit, isDigit c = true :=
    fun _ hc => List.mem_takeWhile_imp hc
  -- The reader looks for the point first: the digits in front of it may be missing then.
  rcases point_cases cs with ⟨more, hmore⟩ | hwhole
  · obtain ⟨es, hes, hexponent, hlongest⟩ := readExponent_longest (more.dropWhile isDigit)
    rw [readLiteral?_point hmore] at h
    split at h
    next => exact nomatch h
    next hsome =>
      obtain ⟨rfl, rfl⟩ := Prod.mk.inj (Option.some.inj h)
      have hcs : cs = (cs.takeWhile isDigit ++ '.' :: (more.takeWhile isDigit ++ es))
          ++ (readExponent (more.dropWhile isDigit)).2 := by
        rw [List.append_assoc, List.cons_append, List.append_assoc, ← hes,
          List.takeWhile_append_dropWhile, ← hmore, List.takeWhile_append_dropWhile]
      refine ⟨_, hcs, ?_, fun q n k hq hstart => hq.front_point hstart hmore hlongest⟩
      -- Without digits in front of the point there are some behind it.
      by_cases hds : cs.takeWhile isDigit = []
      · have hfs : AreDigits (more.takeWhile isDigit) := by
          refine ⟨fun hfs => hsome ?_, hdigits⟩
          rw [hds, hfs]
          rfl
        rw [hds]
        exact .fraction hfs hexponent
      · exact .point ⟨hds, hdigits⟩ hdigits hexponent
  · obtain ⟨es, hes, hexponent, hlongest⟩ := readExponent_longest (cs.dropWhile isDigit)
    rw [readLiteral?_whole hwhole] at h
    split at h
    next => exact nomatch h
    next hsome =>
      obtain ⟨rfl, rfl⟩ := Prod.mk.inj (Option.some.inj h)
      have hcs : cs = (cs.takeWhile isDigit ++ es) ++ (readExponent (cs.dropWhile isDigit)).2 := by
        rw [List.append_assoc, ← hes, List.takeWhile_append_dropWhile]
      refine ⟨_, hcs, ?_, fun q n k hq hstart => hq.front_whole hstart hwhole hlongest⟩
      rw [List.append_nil, List.length_nil, Int.natCast_zero, Int.sub_zero]
      exact .whole ⟨fun hnil => hsome (List.isEmpty_iff.mpr hnil), hdigits⟩ hexponent

/-- Where digits stand in front, something is read. -/
theorem AreDigits.readLiteral? {ds : List Char} (hds : AreDigits ds) (h : ds <+: cs) :
    readLiteral? cs ≠ none := by
  have hsome := hds.isEmpty_takeWhile h
  rcases point_cases cs with ⟨more, hmore⟩ | hwhole
  · rw [readLiteral?_point hmore, hsome, Bool.false_and, if_neg Bool.false_ne_true]
    exact Option.some_ne_none _
  · rw [readLiteral?_whole hwhole, hsome, if_neg Bool.false_ne_true]
    exact Option.some_ne_none _

/-- **If nothing is read, there is no decimal literal in front.** -/
theorem readLiteral?_none (h : readLiteral? cs = none) (hp : IsDecimal p n k) : ¬p <+: cs := by
  intro hstart
  cases hp with
  | whole hds hes => exact hds.readLiteral? ((List.prefix_append _ _).trans hstart) h
  | point hds hfs hes => exact hds.readLiteral? ((List.prefix_append _ _).trans hstart) h
  | @fraction fs es _ hfs hes =>
    obtain ⟨tail, rfl⟩ := hstart
    have hsome := hfs.isEmpty_takeWhile ((List.prefix_append fs es).trans (List.prefix_append _ tail))
    have hmore : ('.' :: (fs ++ es ++ tail)).dropWhile isDigit = '.' :: (fs ++ es ++ tail) :=
      List.dropWhile_cons_of_neg Bool.false_ne_true
    rw [List.cons_append, readLiteral?_point hmore, hsome, Bool.and_false,
      if_neg Bool.false_ne_true] at h
    exact nomatch h

/-- A decimal literal is read as a whole. -/
theorem IsDecimal.read (h : IsDecimal cs n k) : ∃ l, readLiteral? cs = some (l, []) ∧
    digitsValue (l.whole ++ l.fraction) = n ∧ l.exponent - l.fraction.length = k := by
  have hsome : ∀ {ds : List Char}, AreDigits ds → ds.isEmpty = false := fun hds =>
    Bool.eq_false_iff.mpr fun hempty => hds.1 (List.isEmpty_iff.mp hempty)
  cases h with
  | @whole ds es k hds hes =>
    obtain ⟨htake, hdrop⟩ := takeWhile_run hds.2 hes.not_digit
    have hwhole : ∀ c ∈ ((ds ++ es).dropWhile isDigit).head?, c ≠ '.' := by
      rw [hdrop]
      intro c hc
      rcases hes.head c hc with rfl | rfl <;> decide
    refine ⟨⟨ds, [], k⟩, ?_, congrArg digitsValue (List.append_nil ds), Int.sub_zero k⟩
    rw [readLiteral?_whole hwhole, htake, hdrop, hsome hds, if_neg Bool.false_ne_true, hes.read]
  | @point ds fs es k hds hfs hes =>
    obtain ⟨htake, hdrop⟩ := takeWhile_run hds.2 (point_not_digit (fs ++ es))
    obtain ⟨htake', hdrop'⟩ := takeWhile_run hfs hes.not_digit
    refine ⟨⟨ds, fs, k⟩, ?_, rfl, rfl⟩
    rw [readLiteral?_point hdrop, htake, htake', hdrop', hsome hds, Bool.false_and,
      if_neg Bool.false_ne_true, hes.read]
  | @fraction fs es k hfs hes =>
    obtain ⟨htake, hdrop⟩ := takeWhile_run (List.forall_mem_nil _) (point_not_digit (fs ++ es))
    obtain ⟨htake', hdrop'⟩ := takeWhile_run hfs.2 hes.not_digit
    rw [List.nil_append] at htake hdrop
    refine ⟨⟨[], fs, k⟩, ?_, rfl, rfl⟩
    rw [readLiteral?_point hdrop, htake, htake', hdrop', hsome hfs, Bool.and_false,
      if_neg Bool.false_ne_true, hes.read]

/-- A decimal literal denotes one number. -/
theorem IsDecimal.unique {n' : Nat} {k' : Int} (h : IsDecimal cs n k) (h' : IsDecimal cs n' k') :
    n = n' ∧ k = k' := by
  obtain ⟨l, hl, hn, hk⟩ := h.read
  obtain ⟨l', hl', hn', hk'⟩ := h'.read
  rw [hl, Option.some_inj, Prod.mk.injEq] at hl'
  obtain ⟨rfl, -⟩ := hl'
  exact ⟨hn ▸ hn', hk ▸ hk'⟩

/-- A text is read as a decimal literal as a whole if it is one. -/
theorem readLiteral?_iff : (∃ l, readLiteral? cs = some (l, [])) ↔ ∃ n k, IsDecimal cs n k := by
  constructor
  · rintro ⟨l, hl⟩
    obtain ⟨p, hcs, hp, -⟩ := readLiteral?_longest hl
    rw [List.append_nil] at hcs
    exact ⟨_, _, hcs ▸ hp⟩
  · rintro ⟨n, k, h⟩
    obtain ⟨l, hl, -⟩ := h.read
    exact ⟨l, hl⟩

end Decimals

/-! ### Literals with a sign -/

section Signed

variable {cs sign : List Char} {c : Char} {n : Nat} {k : Int} {x y : Float} {negative : Bool}

/-- A literal without sign starts with a digit, a point or the word for infinity. -/
theorem IsDecimal.head (h : IsDecimal cs n k) : ∃ c ∈ cs.head?, isDigit c = true ∨ c = '.' := by
  have hdigits : ∀ {ds es : List Char}, AreDigits ds →
      ∃ c ∈ (ds ++ es).head?, isDigit c = true ∨ c = '.' := by
    intro ds es hds
    obtain ⟨d, ds, rfl⟩ := List.exists_cons_of_ne_nil hds.1
    exact ⟨d, rfl, .inl (hds.2 d List.mem_cons_self)⟩
  cases h with
  | whole hds hes => exact hdigits hds
  | point hds hfs hes => exact hdigits hds
  | fraction hfs hes => exact ⟨'.', rfl, .inr rfl⟩

theorem IsDecimal.ne_infinityWord (h : IsDecimal cs n k) : cs ≠ infinityWord := by
  rintro rfl
  obtain ⟨c, hc, hdigit | hpoint⟩ := h.head
  · rw [← Option.mem_some_iff.mp hc] at hdigit
    exact absurd hdigit (by decide)
  · rw [← Option.mem_some_iff.mp hc] at hpoint
    exact absurd hpoint (by decide)

/-- What has no sign in front has none. -/
theorem IsUnsigned.not_sign (h : IsUnsigned cs x) : ∀ c ∈ cs.head?, c ≠ '+' ∧ c ≠ '-' := by
  cases h with
  | infinity =>
    intro c hc
    rw [← Option.mem_some_iff.mp hc]
    decide
  | decimal h =>
    obtain ⟨d, hd, hdigit | rfl⟩ := h.head
    · intro c hc
      rw [Option.mem_unique hc hd]
      exact not_sign_of_digit hdigit
    · intro c hc
      rw [Option.mem_unique hc hd]
      decide

theorem IsUnsigned.unique (h : IsUnsigned cs x) (h' : IsUnsigned cs y) : x = y := by
  cases h with
  | infinity =>
    cases h' with
    | infinity => rfl
    | decimal h' => exact absurd rfl h'.ne_infinityWord
  | decimal h =>
    cases h' with
    | infinity => exact absurd rfl h.ne_infinityWord
    | decimal h' =>
      obtain ⟨rfl, rfl⟩ := h.unique h'
      rfl

/-- The parts of a literal are those that the sign in front leaves. -/
theorem isSigned_iff : IsSigned cs x ↔
    ∃ y, IsUnsigned (readSign cs).2 y ∧ x = Double.withSign (readSign cs).1 y := by
  constructor
  · rintro ⟨hsign, h⟩
    rw [hsign.read h.not_sign]
    exact ⟨_, h, rfl⟩
  · rintro ⟨y, h, rfl⟩
    obtain ⟨sign, hcs, hsign⟩ := readSign_spec cs
    rw [hcs, hsign.read h.not_sign]
    exact .mk hsign h

/-- **A literal denotes one number.** -/
theorem IsSigned.unique (h : IsSigned cs x) (h' : IsSigned cs y) : x = y := by
  obtain ⟨x, hx, rfl⟩ := isSigned_iff.mp h
  obtain ⟨y, hy, rfl⟩ := isSigned_iff.mp h'
  rw [hx.unique hy]

end Signed

end Scriptlet
