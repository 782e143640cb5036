/-!
# Replacing text

`replaceAll mark text` replaces the occurrences of a mark from left to right. Occurrences do not
overlap: the search goes on behind the one just replaced, and never inside the new text.
-/

namespace LineTemplate.Text

/-- Replaces every occurrence of `mark`; the first `skip` characters belong to one already
replaced and are dropped. -/
def replaceFrom (mark text : List Char) : (skip : Nat) → List Char → List Char
  | _, [] => []
  | skip + 1, _ :: cs => replaceFrom mark text skip cs
  | 0, c :: cs =>
    if mark.isPrefixOf (c :: cs) then text ++ replaceFrom mark text (mark.length - 1) cs
    else c :: replaceFrom mark text 0 cs

/-- Replaces every occurrence of `mark`, which is not empty, by `text`. -/
def replaceAll (mark text cs : List Char) : List Char :=
  replaceFrom mark text 0 cs

example : replaceAll "aa".toList "b".toList "aaaca".toList = "baca".toList := by decide

end LineTemplate.Text
