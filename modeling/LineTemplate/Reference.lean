import LineTemplate.Scopes
import LineTemplate.Text.Replace

/-!
# References

A reference is written `${path}`. Behind a dollar sign, a candidate runs on as long as its
characters can be part of a name; it is a reference when what was read stands in braces. So `$a` is
none, and neither is `${a}` with a letter right behind it.

The references of a line are substituted one name after the other, in the order of the names. Each
substitution works on the text that the earlier ones have left.
-/

namespace LineTemplate

namespace Reference

/-- A character that can stand in a candidate; a digit cannot be the first one. -/
def isNameChar (c : Char) (first : Bool) : Bool :=
  if '0' ≤ c && c ≤ '9' then !first
  else ('a' ≤ c && c ≤ 'z') || ('A' ≤ c && c ≤ 'Z') || ['_', '.', '{', '}'].contains c

/-- The name of a candidate: what stands between its first and its last character, if these are
braces and it is not empty. -/
def name? : List Char → Option String
  | '{' :: rest =>
    if rest.getLast? = some '}' && 1 < rest.length then some (String.ofList rest.dropLast) else none
  | _ => none

/-- The candidate that a character opens. -/
def opened (c : Char) : Option (List Char) :=
  if c = '$' then some [] else none

/-- The name of an open candidate, given with its characters in reverse order. -/
def closed (candidate : Option (List Char)) : List String :=
  (candidate.bind fun reversed => name? reversed.reverse).toList

/-- The names of the references, from left to right. The open candidate, if there is one, is carried
with its characters in reverse order; the character that ends one candidate can open the next. -/
def scanFrom : Option (List Char) → List Char → List String
  | candidate, [] => closed candidate
  | none, c :: cs => scanFrom (opened c) cs
  | some reversed, c :: cs =>
    if isNameChar c reversed.isEmpty then scanFrom (some (c :: reversed)) cs
    else closed (some reversed) ++ scanFrom (opened c) cs

/-- The names of the references of a line, in order and without repetitions. -/
def names (line : List Char) : List String :=
  (Dict.ofList ((scanFrom none line).map fun name => (name, ()))).names

/-- A reference as it is written. -/
def written (name : String) : List Char :=
  '$' :: '{' :: (name.toList ++ ['}'])

/-- The text with every reference to a name replaced by the display of its value; a name without a
value is left as it is. -/
def substitute (provider : Provider) (scopes : Scopes) (text : List Char) (name : String) :
    List Char :=
  match scopes.lookup provider name with
  | some value => Text.replaceAll (written name) (provider.display (some value)).toList text
  | none => text

/-- A line with its references substituted, one name after the other. -/
def format (provider : Provider) (scopes : Scopes) (line : List Char) : List Char :=
  (names line).foldl (substitute provider scopes) line

/-- The names of a line that have no value. -/
def unresolved (provider : Provider) (scopes : Scopes) (line : List Char) : List String :=
  (names line).filter fun name => (scopes.lookup provider name).isNone

example : names "$\x7bb\x7d $a $\x7ba.b\x7d$\x7b1\x7d $\x7bc\x7dd $\x7b\x7d $$\x7be\x7d".toList
    = ["1", "a.b", "b", "e"] := by
  decide +kernel

end Reference

end LineTemplate
