/-!
# Escapes

A backslash takes the meaning of the character behind it away, whatever it is.  `resolve` reads
escapes, `everywhere` writes one before every character, and `sparingly` only before the five
characters that can begin something.
-/

namespace TemplateGrammar.Escape

/-- **Read escapes:** each backslash goes and the character behind it stays; a backslash at the very
end goes. -/
def resolve : List Char → List Char
  | [] => []
  | c :: rest =>
    if c = '\\' then
      match rest with
      | [] => []
      | d :: more => d :: resolve more
    else c :: resolve rest

/-- A backslash before every character. -/
def everywhere (cs : List Char) : List Char :=
  cs.flatMap fun c => ['\\', c]

/-- The characters that must be escaped to be literal wherever they stand outside of constructs. -/
def special : List Char :=
  ['\\', '#', '{', '[', ':']

/-- A backslash before the special characters only. -/
def sparingly (cs : List Char) : List Char :=
  cs.flatMap fun c => if special.contains c then ['\\', c] else [c]

@[simp]
theorem resolve_backslash (c : Char) (cs : List Char) :
    resolve ('\\' :: c :: cs) = c :: resolve cs := by
  rw [resolve, if_pos rfl]

theorem resolve_cons {c : Char} (h : c ≠ '\\') (cs : List Char) :
    resolve (c :: cs) = c :: resolve cs := by
  cases cs <;> simp [resolve, h]

theorem resolve_sparingly (cs : List Char) : resolve (sparingly cs) = cs := by
  induction cs with
  | nil => rfl
  | cons c rest ih =>
    by_cases h : special.contains c
    · have hs : sparingly (c :: rest) = '\\' :: c :: sparingly rest := by
        rw [sparingly, List.flatMap_cons, if_pos h]
        rfl
      rw [hs, resolve_backslash, ih]
    · have hs : sparingly (c :: rest) = c :: sparingly rest := by
        rw [sparingly, List.flatMap_cons, if_neg h]
        rfl
      have hc : c ≠ '\\' := fun e => h (by rw [e]; decide)
      rw [hs, resolve_cons hc, ih]

end TemplateGrammar.Escape
