/-!
# Blank characters

The white space that may surround a setting: the space separators of Unicode, the line and
paragraph separators, the five ASCII controls from tab to carriage return, and the byte-order mark.
`trim` removes it from both ends of a text and leaves everything between in place.
-/

namespace PullRange.Text

/-- Next line (U+0085), the Mongolian vowel separator (U+180E) and the zero-width space (U+200B)
are no blanks. -/
def isBlank (character : Char) : Bool :=
  let code := character.toNat
  (0x09 ≤ code && code ≤ 0x0D) || code == 0x20 || code == 0xA0 || code == 0x1680 ||
    (0x2000 ≤ code && code ≤ 0x200A) || code == 0x2028 || code == 0x2029 || code == 0x202F ||
    code == 0x205F || code == 0x3000 || code == 0xFEFF

def trimStart (characters : List Char) : List Char :=
  characters.dropWhile isBlank

def trimEnd (characters : List Char) : List Char :=
  (characters.reverse.dropWhile isBlank).reverse

def trim (characters : List Char) : List Char :=
  trimEnd (trimStart characters)

end PullRange.Text
