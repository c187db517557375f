import Scriptlet.Source
import Mathlib.Tactic.SplitIfs

/-!
# Where the pipeline operators are

The operators are looked for before there are tokens.  What the grammar of tokens says about strings,
templates and comments is put into rules here that do not look like the search: a stretch of code
passes over whole strings, comments, templates and braces, and a template over whole substitutions,
inside of which is code again.  The rules have as a parameter which of the characters that end a line
may end a line comment, and what stands behind them.

## Main definitions

* `Pipeline.Stretch`, `Pipeline.Lexed` — the rules, with the offsets of the operators.
* `Pipeline.FeedsLine` — a line feed, or a carriage return with one behind it.
* `Pipeline.Marks` — offsets at which the two characters of an operator stand.
* `Pipeline.bytes` — the encoding of a text.

## Main results

* `Pipeline.locateFrom_stretch` — **the search passes over a stretch and finds its operators**.
* `Pipeline.marks_locateFrom` — on any text at all, it finds operators only.
* `Pipeline.bytes_respellFrom` — the respelled text has a bar behind each offset and is the same
  everywhere else.
* `Source.ofString_spec` — **if every line comment ends where a line feed is, the operators of a source
  are those of the grammar**.
* `Source.ofString_misses` — if one ends with a carriage return alone, they need not be.
* `Source.tokenAt?_operator` — **a respelled operator is a token of two bars** unless an equals sign
  follows it.
* `Source.ofString_fuses` — if one follows, the operator becomes an assignment's.
-/

namespace Scriptlet

namespace Pipeline

/-! ### The rules -/

/-- The kinds of text that the rules distinguish. -/
inductive Place
  | code
  | quoted (quote : Char)
  | template
  | lineComment
  | blockComment
deriving DecidableEq, Repr

/-- Whether a character of code, with the given ones behind it, is neither a brace nor the beginning
of a string, a template, a comment or an operator. -/
def IsPlain (c : Char) (next : List Char) : Prop :=
  c ∉ ['\'', '"', '`', '{', '}'] ∧
    ¬(c = '/' ∧ (next.head? = some '/' ∨ next.head? = some '*')) ∧
    ¬(c = '|' ∧ next.head? = some '>')

instance (c : Char) (next : List Char) : Decidable (IsPlain c next) :=
  inferInstanceAs (Decidable (_ ∧ _ ∧ _))

/-- The text `cs` at offset `i` begins with a stretch of the given kind, which has operators at the
offsets `os`; behind it, at offset `j`, is `rest`.  Of the characters that end a line, those of which
`ends` holds, with what is behind them, may end a line comment. -/
inductive Stretch (ends : Char → List Char → Prop) :
    Place → Nat → List Char → List Nat → Nat → List Char → Prop
  | stop {p i cs} : Stretch ends p i cs [] i cs
  | plain {i c cs os j rest} (h : IsPlain c cs)
    (more : Stretch ends .code (i + c.utf8Size) cs os j rest) :
    Stretch ends .code i (c :: cs) os j rest
  | operator {i cs os j rest} (more : Stretch ends .code (i + 2) cs os j rest) :
    Stretch ends .code i ('|' :: '>' :: cs) (i :: os) j rest
  | braces {i cs os j cs' os' k rest} (inside : Stretch ends .code (i + 1) cs os j ('}' :: cs'))
    (more : Stretch ends .code (j + 1) cs' os' k rest) :
    Stretch ends .code i ('{' :: cs) (os ++ os') k rest
  | string {q i cs j cs' os k rest} (quote : q = '\'' ∨ q = '"')
    (inside : Stretch ends (.quoted q) (i + 1) cs [] j (q :: cs'))
    (more : Stretch ends .code (j + 1) cs' os k rest) : Stretch ends .code i (q :: cs) os k rest
  | template {i cs os j cs' os' k rest}
    (inside : Stretch ends .template (i + 1) cs os j ('`' :: cs'))
    (more : Stretch ends .code (j + 1) cs' os' k rest) :
    Stretch ends .code i ('`' :: cs) (os ++ os') k rest
  | lineComment {i cs j t cs' os k rest}
    (inside : Stretch ends .lineComment (i + 2) cs [] j (t :: cs'))
    (line : Lexer.isLineEnd t = true) (ending : ends t cs')
    (more : Stretch ends .code (j + t.utf8Size) cs' os k rest) :
    Stretch ends .code i ('/' :: '/' :: cs) os k rest
  | lastComment {i cs j} (inside : Stretch ends .lineComment (i + 2) cs [] j []) :
    Stretch ends .code i ('/' :: '/' :: cs) [] j []
  | blockComment {i cs j cs' os k rest}
    (inside : Stretch ends .blockComment (i + 2) cs [] j ('*' :: '/' :: cs'))
    (more : Stretch ends .code (j + 2) cs' os k rest) :
    Stretch ends .code i ('/' :: '*' :: cs) os k rest
  | quotedEscape {q i c cs os j rest}
    (more : Stretch ends (.quoted q) (i + 1 + c.utf8Size) cs os j rest) :
    Stretch ends (.quoted q) i ('\\' :: c :: cs) os j rest
  | quotedChar {q i c cs os j rest} (quote : c ≠ q) (escape : c ≠ '\\')
    (more : Stretch ends (.quoted q) (i + c.utf8Size) cs os j rest) :
    Stretch ends (.quoted q) i (c :: cs) os j rest
  | templateEscape {i c cs os j rest}
    (more : Stretch ends .template (i + 1 + c.utf8Size) cs os j rest) :
    Stretch ends .template i ('\\' :: c :: cs) os j rest
  | templateChar {i c cs os j rest} (quote : c ≠ '`') (escape : c ≠ '\\')
    (opening : ¬(c = '$' ∧ cs.head? = some '{'))
    (more : Stretch ends .template (i + c.utf8Size) cs os j rest) :
    Stretch ends .template i (c :: cs) os j rest
  | substitution {i cs os j cs' os' k rest}
    (inside : Stretch ends .code (i + 2) cs os j ('}' :: cs'))
    (more : Stretch ends .template (j + 1) cs' os' k rest) :
    Stretch ends .template i ('$' :: '{' :: cs) (os ++ os') k rest
  | lineChar {i c cs os j rest} (line : Lexer.isLineEnd c = false)
    (more : Stretch ends .lineComment (i + c.utf8Size) cs os j rest) :
    Stretch ends .lineComment i (c :: cs) os j rest
  | blockChar {i c cs os j rest} (closing : ¬(c = '*' ∧ cs.head? = some '/'))
    (more : Stretch ends .blockComment (i + c.utf8Size) cs os j rest) :
    Stretch ends .blockComment i (c :: cs) os j rest

/-- A whole text at offset `i`, with operators at the given offsets: stretches of code, and braces
between them that are not in pairs. -/
inductive Lexed (ends : Char → List Char → Prop) : Nat → List Char → List Nat → Prop
  | whole {i cs os j} (h : Stretch ends .code i cs os j []) : Lexed ends i cs os
  | brace {i cs os j b cs' os'} (before : Stretch ends .code i cs os j (b :: cs'))
    (h : b = '{' ∨ b = '}') (after : Lexed ends (j + 1) cs' os') : Lexed ends i cs (os ++ os')

/-- The end of a line comment where a line feed is: a carriage return in front of it belongs to the end
of the line. -/
def FeedsLine (c : Char) (next : List Char) : Prop :=
  c = '\n' ∨ c = '\r' ∧ next.head? = some '\n'

/-! ### The search -/

/-- The region that the search is in. -/
def Place.region : Place → Region
  | .code => .code
  | .quoted q => .quoted q
  | .template => .template
  | .lineComment => .lineComment
  | .blockComment => .blockComment

section

variable (pending : List Nat) (depth i : Nat) (cs : List Char)

attribute [local simp] locateFrom

/-- What the search does at a character of code that is no mark. -/
theorem locateFrom_plain {c : Char} (h : IsPlain c cs) :
    locateFrom .code pending depth i (c :: cs) =
      locateFrom .code pending depth (i + c.utf8Size) cs := by
  obtain ⟨hc, hslash, hbar⟩ := h
  simp only [List.mem_cons, List.not_mem_nil, or_false, not_or] at hc
  obtain ⟨h₁, h₂, h₃, h₄, h₅⟩ := hc
  have hline : ¬(c = '/' ∧ cs.head? = some '/') := fun h => hslash ⟨h.1, .inl h.2⟩
  have hblock : ¬(c = '/' ∧ cs.head? = some '*') := fun h => hslash ⟨h.1, .inr h.2⟩
  simp [h₁, h₂, h₃, h₄, h₅, hline, hblock, hbar]

theorem locateFrom_operator : locateFrom .code pending depth i ('|' :: '>' :: cs) =
    i :: locateFrom .code pending depth (i + 2) cs := rfl

theorem locateFrom_opening : locateFrom .code pending depth i ('{' :: cs) =
    locateFrom .code pending (depth + 1) (i + 1) cs := rfl

/-- A closing brace that ends no substitution. -/
theorem locateFrom_closing (h : pending.head? ≠ some depth) :
    locateFrom .code pending depth i ('}' :: cs) =
      locateFrom .code pending (depth - 1) (i + 1) cs := by
  simp only [locateFrom]
  exact if_neg h

/-- The closing brace of a substitution. -/
theorem locateFrom_resume : locateFrom .code (depth :: pending) depth i ('}' :: cs) =
    locateFrom .template pending depth (i + 1) cs := by
  simp only [locateFrom]
  exact if_pos rfl

theorem locateFrom_quote {q : Char} (h : q = '\'' ∨ q = '"') :
    locateFrom .code pending depth i (q :: cs) =
      locateFrom (.quoted q) pending depth (i + 1) cs := by
  rcases h with rfl | rfl <;> rfl

theorem locateFrom_unquote {q : Char} (h : q = '\'' ∨ q = '"') :
    locateFrom (.quoted q) pending depth i (q :: cs) =
      locateFrom .code pending depth (i + 1) cs := by
  rcases h with rfl | rfl <;> rfl

theorem locateFrom_quoted {q c : Char} (h : c ≠ q) (escape : c ≠ '\\') :
    locateFrom (.quoted q) pending depth i (c :: cs) =
      locateFrom (.quoted q) pending depth (i + c.utf8Size) cs := by
  simp [h, escape]

theorem locateFrom_quotedEscape (q c : Char) :
    locateFrom (.quoted q) pending depth i ('\\' :: c :: cs) =
      locateFrom (.quoted q) pending depth (i + 1 + c.utf8Size) cs := rfl

theorem locateFrom_backquote : locateFrom .code pending depth i ('`' :: cs) =
    locateFrom .template pending depth (i + 1) cs := rfl

theorem locateFrom_unbackquote : locateFrom .template pending depth i ('`' :: cs) =
    locateFrom .code pending depth (i + 1) cs := rfl

theorem locateFrom_template {c : Char} (quote : c ≠ '`') (escape : c ≠ '\\')
    (opening : ¬(c = '$' ∧ cs.head? = some '{')) :
    locateFrom .template pending depth i (c :: cs) =
      locateFrom .template pending depth (i + c.utf8Size) cs := by
  simp [quote, escape, opening]

theorem locateFrom_templateEscape (c : Char) :
    locateFrom .template pending depth i ('\\' :: c :: cs) =
      locateFrom .template pending depth (i + 1 + c.utf8Size) cs := rfl

theorem locateFrom_substitution : locateFrom .template pending depth i ('$' :: '{' :: cs) =
    locateFrom .code (depth :: pending) depth (i + 2) cs := rfl

theorem locateFrom_slashes : locateFrom .code pending depth i ('/' :: '/' :: cs) =
    locateFrom .lineComment pending depth (i + 2) cs := rfl

/-- A line comment ends where a line feed is.  The search passes over a carriage return in front of it as
over a part of the comment, and the line feed is no mark. -/
theorem locateFrom_feedsLine {c : Char} (h : FeedsLine c cs) :
    locateFrom .lineComment pending depth i (c :: cs) =
      locateFrom .code pending depth (i + c.utf8Size) cs := by
  rcases h with rfl | ⟨rfl, hnext⟩
  · rfl
  · obtain ⟨rest, rfl⟩ : ∃ rest, cs = '\n' :: rest := List.head?_eq_some_iff.mp hnext
    rfl

theorem locateFrom_lineComment {c : Char} (h : Lexer.isLineEnd c = false) :
    locateFrom .lineComment pending depth i (c :: cs) =
      locateFrom .lineComment pending depth (i + c.utf8Size) cs := by
  have hc : c ≠ '\n' := by
    rintro rfl
    exact absurd h (by decide)
  simp [hc]

theorem locateFrom_slashStar : locateFrom .code pending depth i ('/' :: '*' :: cs) =
    locateFrom .blockComment pending depth (i + 2) cs := rfl

theorem locateFrom_starSlash : locateFrom .blockComment pending depth i ('*' :: '/' :: cs) =
    locateFrom .code pending depth (i + 2) cs := rfl

theorem locateFrom_blockComment {c : Char} (h : ¬(c = '*' ∧ cs.head? = some '/')) :
    locateFrom .blockComment pending depth i (c :: cs) =
      locateFrom .blockComment pending depth (i + c.utf8Size) cs := by
  simp [h]

end

/-- **The search passes over a stretch and finds its operators.**  No substitution that is open
outside of the stretch is ended inside of it, as long as no fewer braces are open at its start than
at the start of the substitution. -/
theorem locateFrom_stretch {p : Place} {i j : Nat} {cs rest : List Char} {os : List Nat}
    (h : Stretch FeedsLine p i cs os j rest) {pending : List Nat} {depth : Nat}
    (hd : ∀ d ∈ pending.head?, d ≤ depth) :
    locateFrom p.region pending depth i cs = os ++ locateFrom p.region pending depth j rest := by
  induction h generalizing pending depth with
  | stop => rfl
  | plain h _ ih => exact (locateFrom_plain _ _ _ _ h).trans (ih hd)
  | operator _ ih => exact (locateFrom_operator _ _ _ _).trans (congrArg _ (ih hd))
  | braces _ _ inside more =>
    -- One brace more is open inside, so that the closing one ends no substitution.
    have hin : ∀ d ∈ pending.head?, d ≤ depth + 1 := fun d h => Nat.le_succ_of_le (hd d h)
    have hne : pending.head? ≠ some (depth + 1) := fun h => Nat.not_succ_le_self _ (hd _ h)
    have h := inside hin
    simp only [Place.region] at h more ⊢
    rw [locateFrom_opening, h, locateFrom_closing _ _ _ _ hne, Nat.add_sub_cancel, more hd,
      List.append_assoc]
  | string quote _ _ inside more =>
    have h := inside hd
    simp only [Place.region, List.nil_append] at h more ⊢
    rw [locateFrom_quote _ _ _ _ quote, h, locateFrom_unquote _ _ _ _ quote, more hd]
  | template _ _ inside more =>
    have h := inside hd
    simp only [Place.region] at h more ⊢
    rw [locateFrom_backquote, h, locateFrom_unbackquote, more hd, List.append_assoc]
  | lineComment _ _ ending _ inside more =>
    have h := inside hd
    simp only [Place.region, List.nil_append] at h more ⊢
    rw [locateFrom_slashes, h, locateFrom_feedsLine _ _ _ _ ending, more hd]
  | lastComment _ inside => exact (locateFrom_slashes _ _ _ _).trans (inside hd)
  | blockComment _ _ inside more =>
    have h := inside hd
    simp only [Place.region, List.nil_append] at h more ⊢
    rw [locateFrom_slashStar, h, locateFrom_starSlash, more hd]
  | quotedEscape _ ih => exact (locateFrom_quotedEscape _ _ _ _ _ _).trans (ih hd)
  | quotedChar quote escape _ ih => exact (locateFrom_quoted _ _ _ _ quote escape).trans (ih hd)
  | templateEscape _ ih => exact (locateFrom_templateEscape _ _ _ _ _).trans (ih hd)
  | templateChar quote escape opening _ ih =>
    exact (locateFrom_template _ _ _ _ quote escape opening).trans (ih hd)
  | substitution _ _ inside more =>
    -- The braces that are open at the start of the substitution are also open at its end.
    have h := @inside (depth :: pending) depth fun d h => by
      simp only [List.head?_cons, Option.mem_some_iff] at h
      exact Nat.le_of_eq h.symm
    simp only [Place.region] at h more ⊢
    rw [locateFrom_substitution, h, locateFrom_resume, more hd, List.append_assoc]
  | lineChar line _ ih => exact (locateFrom_lineComment _ _ _ _ line).trans (ih hd)
  | blockChar closing _ ih => exact (locateFrom_blockComment _ _ _ _ closing).trans (ih hd)

/-- Braces that are not in pairs change the count only, which is of no use where no substitution is
open. -/
theorem locateFrom_lexed {i : Nat} {cs : List Char} {os : List Nat} (h : Lexed FeedsLine i cs os)
    (depth : Nat) : locateFrom .code [] depth i cs = os := by
  induction h generalizing depth with
  | whole h =>
    have h := @locateFrom_stretch _ _ _ _ _ _ h [] depth (by simp)
    simpa [Place.region, locateFrom] using h
  | brace before hb _ ih =>
    have h := @locateFrom_stretch _ _ _ _ _ _ before [] depth (by simp)
    refine h.trans (congrArg _ ?_)
    rcases hb with rfl | rfl
    · exact ih (depth + 1)
    · exact (locateFrom_closing _ _ _ _ (by simp)).trans (ih (depth - 1))

/-! ### Respelling -/

/-- The operators of the text `cs` at offset `i` that a search may find: at each of the ascending
offsets there are the two characters. -/
inductive Marks : Nat → List Char → List Nat → Prop
  | nil {i cs} : Marks i cs []
  | skip {i c cs os} (h : Marks (i + c.utf8Size) cs os) : Marks i (c :: cs) os
  | mark {i cs os} (h : Marks (i + 2) cs os) : Marks i ('|' :: '>' :: cs) (i :: os)

namespace Marks

variable {i : Nat} {cs : List Char} {os : List Nat}

theorem le_of_mem (h : Marks i cs os) : ∀ o ∈ os, i ≤ o := by
  induction h with
  | nil => simp
  | skip _ ih =>
    intro o ho
    have := ih o ho
    omega
  | mark _ ih =>
    intro o ho
    rcases List.mem_cons.mp ho with rfl | ho
    · exact Nat.le_refl _
    · have := ih o ho
      omega

theorem ascending (h : Marks i cs os) : os.Pairwise (· < ·) := by
  induction h with
  | nil => exact .nil
  | skip _ ih => exact ih
  | mark h ih =>
    refine List.pairwise_cons.mpr ⟨fun o ho => ?_, ih⟩
    have := h.le_of_mem o ho
    omega

/-- At a character that begins no operator there is none. -/
theorem tail {c : Char} (h : Marks i (c :: cs) os) (hc : c ≠ '|') :
    Marks (i + c.utf8Size) cs os := by
  cases h with
  | nil => exact .nil
  | skip h => exact h
  | mark => exact absurd rfl hc

end Marks

/-- One step of the search: it finds an operator, or goes on in some region behind the character. -/
theorem locateFrom_cons (region : Region) (pending : List Nat) (depth i : Nat) (c : Char)
    (cs : List Char) :
    (region = .code ∧ c = '|' ∧ cs.head? = some '>') ∨ ∃ region' pending' depth',
      locateFrom region pending depth i (c :: cs) =
        locateFrom region' pending' depth' (i + c.utf8Size) cs := by
  cases region with
  | code =>
    by_cases hbar : c = '|' ∧ cs.head? = some '>'
    · exact .inl ⟨rfl, hbar⟩
    · right
      simp only [locateFrom, Bool.and_eq_true, decide_eq_true_eq, if_neg hbar]
      split_ifs <;> exact ⟨_, _, _, rfl⟩
  | quoted q =>
    right
    simp only [locateFrom]
    split_ifs <;> exact ⟨_, _, _, rfl⟩
  | template =>
    right
    simp only [locateFrom]
    split_ifs <;> exact ⟨_, _, _, rfl⟩
  | lineComment => exact .inr ⟨_, _, _, rfl⟩
  | blockComment =>
    right
    simp only [locateFrom]
    split_ifs <;> exact ⟨_, _, _, rfl⟩
  | completing after => exact .inr ⟨after, _, _, rfl⟩

/-- Whatever the text is, the search finds operators only. -/
theorem marks_locateFrom (region : Region) (pending : List Nat) (depth i : Nat) (cs : List Char) :
    Marks i cs (locateFrom region pending depth i cs) := by
  induction cs generalizing region pending depth i with
  | nil => exact .nil
  | cons c rest ih =>
    rcases locateFrom_cons region pending depth i c rest with ⟨rfl, rfl, hrest⟩ | ⟨_, _, _, h⟩
    · obtain ⟨more, rfl⟩ : ∃ more, rest = '>' :: more := by
        cases rest with
        | nil => simp at hrest
        | cons d more => exact ⟨more, by simpa using hrest⟩
      have h := ih (.completing .code) pending depth (i + 1)
      exact .mark (h.tail (by decide))
    · rw [h]
      exact .skip (ih _ _ _ _)

/-- The encoding of a text. -/
def bytes (cs : List Char) : List UInt8 := cs.flatMap String.utf8EncodeChar

@[simp] theorem bytes_cons (c : Char) (cs : List Char) :
    bytes (c :: cs) = String.utf8EncodeChar c ++ bytes cs := rfl

theorem respellFrom_nil (i : Nat) (cs : List Char) : respellFrom i [] cs = cs := by
  cases cs <;> rfl

/-- A character in front of every operator stays. -/
theorem respellFrom_cons {i : Nat} {os : List Nat} (h : ∀ o ∈ os, i ≤ o) (c : Char)
    (cs : List Char) :
    respellFrom i os (c :: cs) = c :: respellFrom (i + c.utf8Size) os cs := by
  cases os with
  | nil => simp [respellFrom, respellFrom_nil]
  | cons o os =>
    have := h o List.mem_cons_self
    have hne : i ≠ o + 1 := by omega
    simp [respellFrom, hne]

/-- An operator is respelled. -/
theorem respellFrom_mark (i : Nat) (os : List Nat) (cs : List Char) :
    respellFrom i (i :: os) ('|' :: '>' :: cs) = '|' :: '|' :: respellFrom (i + 2) os cs := by
  have hne : i ≠ i + 1 := by omega
  have hone : i + ('|').utf8Size = i + 1 := rfl
  simp only [respellFrom, if_neg hne, hone, if_true]
  rfl

theorem length_bytes_respellFrom {i : Nat} {cs : List Char} {os : List Nat} (h : Marks i cs os) :
    (bytes (respellFrom i os cs)).length = (bytes cs).length := by
  induction h with
  | nil => rw [respellFrom_nil]
  | skip h ih =>
    rw [respellFrom_cons fun o ho => by have := h.le_of_mem o ho; omega]
    simp [ih]
  | mark h ih =>
    have hsize : ('|').utf8Size = ('>').utf8Size := rfl
    rw [respellFrom_mark]
    simp [ih, hsize]

theorem bytes_respellFrom {i : Nat} {cs : List Char} {os : List Nat} (h : Marks i cs os) (k : Nat) :
    (bytes (respellFrom i os cs))[k]? =
      if i + k ∈ os.map (· + 1) then some 0x7C else (bytes cs)[k]? := by
  induction h generalizing k with
  | nil => simp [respellFrom_nil]
  | @skip i c cs os h ih =>
    have hle : ∀ o ∈ os, i + c.utf8Size ≤ o := h.le_of_mem
    have hlength : (String.utf8EncodeChar c).length = c.utf8Size := String.length_utf8EncodeChar c
    rw [respellFrom_cons fun o ho => by have := hle o ho; omega]
    simp only [bytes_cons]
    -- No mark is inside a character that is skipped, and the bytes behind it are counted on from its
    -- end.
    by_cases hk : k < c.utf8Size
    · have hnot : i + k ∉ os.map (· + 1) := by
        simp only [List.mem_map, not_exists, not_and]
        intro o ho
        have := hle o ho
        omega
      rw [if_neg hnot, List.getElem?_append_left (by omega), List.getElem?_append_left (by omega)]
    · rw [List.getElem?_append_right (by omega), List.getElem?_append_right (by omega), ih, hlength,
        show i + c.utf8Size + (k - c.utf8Size) = i + k by omega]
  | @mark i cs os h ih =>
    have hle : ∀ o ∈ os, i + 2 ≤ o := h.le_of_mem
    have hnot : i ∉ (i :: os).map (· + 1) := by
      simp only [List.mem_map, List.mem_cons, not_exists, not_and]
      rintro o (rfl | ho)
      · omega
      · have := hle o ho
        omega
    rw [respellFrom_mark]
    match k with
    | 0 =>
      show some _ = if i ∈ _ then _ else _
      rw [if_neg hnot]
      rfl
    -- The second byte of a mark is the one that is respelled.
    | 1 =>
      rw [if_pos (by simp)]
      rfl
    | k + 2 =>
      have hne : i + (k + 2) ≠ i + 1 := by omega
      have hmem : i + (k + 2) ∈ (i :: os).map (· + 1) ↔ i + 2 + k ∈ os.map (· + 1) := by
        rw [List.map_cons, List.mem_cons, or_iff_right hne,
          show i + (k + 2) = i + 2 + k by omega]
      have h := ih k
      simp only [hmem]
      exact h

/-! ### Tokens -/

variable {i : Nat} {os : List Nat}

/-- Behind an operator the two texts go on with the same character. -/
theorem head?_respellFrom (h : ∀ o ∈ os, i ≤ o) (cs : List Char) :
    (respellFrom i os cs).head? = cs.head? := by
  cases cs with
  | nil => cases os <;> rfl
  | cons c cs => rw [respellFrom_cons h]; rfl

/-- The characters behind a whole character and some bytes. -/
theorem dropBytes_cons (c : Char) (n : Nat) (cs : List Char) :
    dropBytes (c.utf8Size + n) (c :: cs) = dropBytes n cs := by
  obtain ⟨k, hk⟩ : ∃ k, c.utf8Size = k + 1 :=
    ⟨c.utf8Size - 1, by have := c.utf8Size_pos; omega⟩
  rw [hk, show k + 1 + n = (k + n) + 1 by omega, dropBytes, hk]
  congr 1
  omega

/-- What stands at an operator in a text and in the respelled one. -/
theorem Marks.dropBytes_eq {cs : List Char} (h : Marks i cs os) {o : Nat} (ho : o ∈ os) :
    ∃ rest rest', dropBytes (o - i) cs = '|' :: '>' :: rest ∧
      dropBytes (o - i) (respellFrom i os cs) = '|' :: '|' :: rest' ∧ rest'.head? = rest.head? := by
  induction h with
  | nil => simp at ho
  | @skip i c cs os h ih =>
    have hle : ∀ o ∈ os, i + c.utf8Size ≤ o := h.le_of_mem
    have hlt := hle o ho
    obtain ⟨n, rfl⟩ : ∃ n, o = i + c.utf8Size + n := ⟨o - (i + c.utf8Size), by omega⟩
    have h := ih ho
    rw [Nat.add_sub_cancel_left] at h
    rw [respellFrom_cons fun o ho => by have := hle o ho; omega,
      show i + c.utf8Size + n - i = c.utf8Size + n by omega, dropBytes_cons, dropBytes_cons]
    exact h
  | @mark i cs os h ih =>
    have hle : ∀ o ∈ os, i + 2 ≤ o := h.le_of_mem
    rw [respellFrom_mark]
    -- The offset asked for is this mark, or one at least two bytes further on.
    rcases List.mem_cons.mp ho with rfl | ho
    · rw [Nat.sub_self]
      exact ⟨cs, _, rfl, rfl, head?_respellFrom hle cs⟩
    · have hlt := hle o ho
      obtain ⟨n, rfl⟩ : ∃ n, o = i + 2 + n := ⟨o - (i + 2), by omega⟩
      have h := ih ho
      rw [Nat.add_sub_cancel_left] at h
      have hdrop : ∀ (c : Char) (l : List Char), c.utf8Size = 1 →
          dropBytes (i + 2 + n - i) ('|' :: c :: l) = dropBytes n l := by
        intro c l hc
        rw [show i + 2 + n - i = ('|').utf8Size + (c.utf8Size + n) by rw [hc]; show _ = 1 + _; omega,
          dropBytes_cons, dropBytes_cons]
      rw [hdrop _ _ rfl, hdrop _ _ rfl]
      exact h

/-- Two bars are one token, and an equals sign behind them belongs to it. -/
theorem tokenAt?_bars (cs : List Char) :
    Lexer.tokenAt? ('|' :: '|' :: cs) =
      some (if cs.head? = some '=' then (.mark "||=", cs.tail) else (.mark "||", cs)) := by
  cases cs with
  | nil => rfl
  | cons c cs =>
    by_cases hc : c = '='
    · subst hc
      rfl
    · have heq : ('=' == c) = false := by simpa using Ne.symm hc
      have hlong : "||=".toList.isPrefixOf ('|' :: '|' :: c :: cs) = false := by
        show (true && (true && (('=' == c) && true))) = false
        rw [heq]
        rfl
      have hfind : Lexer.longMarks.find? (fun m => m.toList.isPrefixOf ('|' :: '|' :: c :: cs)) =
          some "||" := by
        unfold Lexer.longMarks
        simp only [List.find?_cons, hlong]
        rfl
      have hmark : Lexer.tokenAt? ('|' :: '|' :: c :: cs) = Lexer.mark? ('|' :: '|' :: c :: cs) :=
        rfl
      rw [hmark, if_neg (by simpa using hc)]
      simp only [Lexer.mark?, hfind]
      rfl

end Pipeline

namespace Source

open Pipeline

/-- **The operators of a source**: if each of its line comments ends where a line feed is, or with the
text, those that are found are those of the grammar, in their order; and in what is read instead of
the text, just the bytes behind their offsets are bars. -/
theorem ofString_spec {text : String} {os : List Nat}
    (h : Lexed FeedsLine 0 text.toList os) :
    (ofString text).pipelines = os ∧ os.Pairwise (· < ·) ∧
      (bytes (ofString text).readable).length = (bytes text.toList).length ∧
      ∀ k, (bytes (ofString text).readable)[k]? =
        if k ∈ os.map (· + 1) then some 0x7C else (bytes text.toList)[k]? := by
  have hos : locate text.toList = os := locateFrom_lexed h 0
  have hmarks : Marks 0 text.toList os := hos ▸ marks_locateFrom .code [] 0 0 text.toList
  have hreadable : (ofString text).readable = respellFrom 0 os text.toList := by
    show respell (locate text.toList) text.toList = _
    rw [hos]
    rfl
  refine ⟨hos, hmarks.ascending, ?_, fun k => ?_⟩
  · rw [hreadable]
    exact length_bytes_respellFrom hmarks
  · rw [hreadable, bytes_respellFrom hmarks k, Nat.zero_add]

theorem ofString_spec_nested :
    Lexed FeedsLine 0 "`$\x7ba|>f\x7d|>`//|>\n|>g".toList [4, 16] ∧
      (ofString "`$\x7ba|>f\x7d|>`//|>\n|>g").pipelines = [4, 16] := by
  have code : Stretch FeedsLine .code 3 "a|>f\x7d|>`//|>\n|>g".toList [4] 7
      "\x7d|>`//|>\n|>g".toList :=
    .plain (by decide) (.operator (.plain (by decide) .stop))
  have bars : Stretch FeedsLine .template 8 "|>`//|>\n|>g".toList [] 10 "`//|>\n|>g".toList :=
    .templateChar (by decide) (by decide) (by decide)
      (.templateChar (by decide) (by decide) (by decide) .stop)
  have comment : Stretch FeedsLine .lineComment 13 "|>\n|>g".toList [] 15 "\n|>g".toList :=
    .lineChar (by decide) (.lineChar (by decide) .stop)
  have last : Stretch FeedsLine .code 16 "|>g".toList [16] 19 [] :=
    .operator (.plain (by decide) .stop)
  have h : Lexed FeedsLine 0 "`$\x7ba|>f\x7d|>`//|>\n|>g".toList [4, 16] :=
    .whole (.template (.substitution code bars) (.lineComment comment (by decide) (.inl rfl) last))
  exact ⟨h, (ofString_spec h).1⟩

/-- A carriage return alone ends a line comment as well, but not for the search. -/
theorem ofString_misses :
    Lexed (fun _ _ => True) 0 "4 // half\r|> Math.sqrt".toList [10] ∧
      (ofString "4 // half\r|> Math.sqrt").pipelines = [] := by
  have comment : Stretch (fun _ _ => True) .lineComment 4 " half\r|> Math.sqrt".toList [] 9
      "\r|> Math.sqrt".toList :=
    .lineChar (by decide) (.lineChar (by decide) (.lineChar (by decide)
      (.lineChar (by decide) (.lineChar (by decide) .stop))))
  have name : Stretch (fun _ _ => True) .code 12 " Math.sqrt".toList [] 22 [] := by
    repeat' first
      | exact .stop
      | refine .plain (by decide) ?_
  have h : Lexed (fun _ _ => True) 0 "4 // half\r|> Math.sqrt".toList [10] :=
    .whole (.plain (by decide) (.plain (by decide)
      (.lineComment comment (by decide) trivial (.operator name))))
  exact ⟨h, by decide⟩

/-- **A respelled operator is read as two bars**, where a token begins at it, unless an equals sign
follows it. -/
theorem tokenAt?_operator {text : String} {o : Nat} (h : o ∈ (ofString text).pipelines) :
    ∃ rest rest', dropBytes o text.toList = '|' :: '>' :: rest ∧
      Lexer.tokenAt? (dropBytes o (ofString text).readable) =
        some (if rest.head? = some '=' then (.mark "||=", rest'.tail) else (.mark "||", rest')) := by
  have hmarks : Marks 0 text.toList (locate text.toList) := marks_locateFrom .code [] 0 0 _
  obtain ⟨rest, rest', htext, hreadable, hhead⟩ := hmarks.dropBytes_eq h
  rw [Nat.sub_zero] at htext hreadable
  refine ⟨rest, rest', htext, ?_⟩
  show Lexer.tokenAt? (dropBytes o (respellFrom 0 (locate text.toList) text.toList)) = _
  rw [hreadable, tokenAt?_bars, hhead]

/-- With an equals sign behind it the operator is an assignment's, and the place that was found for
it is not looked at. -/
theorem ofString_fuses :
    (ofString "a |>= b").pipelines = [2] ∧
      ((ofString "a |>= b").expression false).toOption.map Expr.kind =
        some "AssignmentExpression" := by
  refine ⟨by decide, ?_⟩
  decide +kernel

end Source

end Scriptlet
