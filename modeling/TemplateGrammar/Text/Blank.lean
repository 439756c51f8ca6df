/-!
# Blanks

The characters that count as white space in templates, in rule files and at the preview prompt:
those with the Unicode property `White_Space`.  They are twenty-five, in ten runs, and every blank
of ASCII is among them.
-/

namespace TemplateGrammar

/-- **The blanks.**  Tab to carriage return, the space, the next line, the space that does not
break, and the spaces and separators of the later blocks. -/
def isBlank (c : Char) : Bool :=
  let n := c.toNat
  (9 ≤ n && n ≤ 13) || n == 0x20 || n == 0x85 || n == 0xA0 || n == 0x1680 ||
    (0x2000 ≤ n && n ≤ 0x200A) || n == 0x2028 || n == 0x2029 || n == 0x202F ||
    n == 0x205F || n == 0x3000

end TemplateGrammar
