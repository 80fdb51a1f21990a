import ApiPage.Text.Str

/-!
# Blank characters

`isBlank` is the one class of blank characters of the whole library: the characters that part type
tokens, that make a settings file empty and that may serve as an indent.
-/

namespace ApiPage

namespace Text

/-- The white space of Unicode: tab to carriage return, the four separators below the space, the
space, next line, the no-break spaces, the typographic spaces and the line and paragraph marks. -/
def isBlank (c : Char) : Bool :=
  let n := c.toNat
  (0x09 ≤ n && n ≤ 0x0D) || (0x1C ≤ n && n ≤ 0x20) || n == 0x85 || n == 0xA0 || n == 0x1680 ||
    (0x2000 ≤ n && n ≤ 0x200A) || n == 0x2028 || n == 0x2029 || n == 0x202F || n == 0x205F ||
    n == 0x3000

end Text

/-- Is a code point a blank character? -/
def CodePoint.isBlank : CodePoint → Bool
  | .char c => Text.isBlank c
  | .surrogate _ => false

@[simp] theorem CodePoint.isBlank_char (c : Char) : (char c).isBlank = Text.isBlank c := rfl

/-- A text without a code point that is not blank; the empty text is one. -/
def Text.allBlank (s : Str) : Bool :=
  s.toList.all CodePoint.isBlank

@[simp] theorem Text.allBlank_whole (s : String) : allBlank s = s.toList.all isBlank := by
  simp [allBlank, List.all_map, Function.comp_def]

end ApiPage
