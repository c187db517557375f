/-!
# The pipeline operator

The operator `|>` binds like `||`, and the grammar knows it under that spelling.  Before parsing,
the operators are located outside quoted text, template text and comments, and respelled; their
offsets tell them from the others afterwards.

Regular expression literals are not known here, and a line comment ends at a line feed only.

## Main definitions

* `Region` — the kind of text that a character belongs to.
* `Pipeline.locate` — the offsets of the operators.
* `Pipeline.respell` — the text in which they are spelled `||`.
-/

namespace Scriptlet

/-- The kinds of text that the search for operators distinguishes.  Of a mark of two characters the
second one is in the region `completing r`, where `r` is the region behind the mark. -/
inductive Region
  | code
  | quoted (quote : Char)
  | template
  | lineComment
  | blockComment
  | completing (after : Region)
deriving DecidableEq, Repr

namespace Pipeline

/-- The offsets of the pipeline operators in a list of characters that starts at offset `i` in the
given region.  `depth` counts the open braces, and `pending` holds, for every template
substitution that is open, the count at its start. -/
def locateFrom (region : Region) (pending : List Nat) (depth i : Nat) : List Char → List Nat
  | [] => []
  | c :: rest =>
    let next := i + c.utf8Size
    match region with
    | .code =>
      if c = '\'' || c = '"' then locateFrom (.quoted c) pending depth next rest
      else if c = '`' then locateFrom .template pending depth next rest
      else if c = '{' then locateFrom .code pending (depth + 1) next rest
      else if c = '}' then
        if pending.head? = some depth then locateFrom .template pending.tail depth next rest
        else locateFrom .code pending (depth - 1) next rest
      else if c = '/' && rest.head? = some '/' then
        locateFrom .lineComment pending depth next rest
      else if c = '/' && rest.head? = some '*' then
        locateFrom (.completing .blockComment) pending depth next rest
      else if c = '|' && rest.head? = some '>' then
        i :: locateFrom (.completing .code) pending depth next rest
      else locateFrom .code pending depth next rest
    | .quoted q =>
      if c = '\\' then locateFrom (.completing (.quoted q)) pending depth next rest
      else locateFrom (if c = q then .code else .quoted q) pending depth next rest
    | .template =>
      if c = '\\' then locateFrom (.completing .template) pending depth next rest
      else if c = '`' then locateFrom .code pending depth next rest
      else if c = '$' && rest.head? = some '{' then
        locateFrom (.completing .code) (depth :: pending) depth next rest
      else locateFrom .template pending depth next rest
    | .lineComment =>
      locateFrom (if c = '\n' then .code else .lineComment) pending depth next rest
    | .blockComment =>
      if c = '*' && rest.head? = some '/' then
        locateFrom (.completing .code) pending depth next rest
      else locateFrom .blockComment pending depth next rest
    | .completing after => locateFrom after pending depth next rest

/-- The offsets of the pipeline operators of a source, ascending. -/
def locate (cs : List Char) : List Nat := locateFrom .code [] 0 0 cs

/-- Replaces the character behind each of the ascending offsets by a bar, the list starting at
offset `i`. -/
def respellFrom (i : Nat) : List Nat → List Char → List Char
  | _, [] => []
  | [], cs => cs
  | o :: offsets, c :: rest =>
    let next := i + c.utf8Size
    if i = o + 1 then '|' :: respellFrom next offsets rest
    else c :: respellFrom next (o :: offsets) rest

/-- The text in which the operators at the given offsets are spelled `||`. -/
def respell (offsets : List Nat) (cs : List Char) : List Char := respellFrom 0 offsets cs

end Pipeline

end Scriptlet
