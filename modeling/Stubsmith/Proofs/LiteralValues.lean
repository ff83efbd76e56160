import Mathlib.Data.List.Basic
import Stubsmith.Syntax.Literal

namespace Stubsmith

namespace Text

variable {a b c x : Char} {cs : List Char}

theorem replacePair_pair (a b c : Char) (cs : List Char) :
    replacePair a b c (a :: b :: cs) = c :: replacePair a b c cs := by
  rw [replacePair, if_pos ⟨rfl, rfl⟩]

theorem replacePair_cons_of_ne (h : x ≠ a) :
    replacePair a b c (x :: cs) = x :: replacePair a b c cs := by
  cases cs with
  | nil => rfl
  | cons y cs => rw [replacePair, if_neg fun hpair => h hpair.1]

theorem replacePair_cons_of_head? (h : cs.head? ≠ some b) :
    replacePair a b c (x :: cs) = x :: replacePair a b c cs := by
  cases cs with
  | nil => rfl
  | cons y cs => rw [replacePair, if_neg fun hpair => h (congrArg some hpair.2)]

theorem stripSuffix?_concat (c : Char) (cs : List Char) : stripSuffix? [c] (cs ++ [c]) = some cs := by
  simp [stripSuffix?, stripPrefix?]

end Text

namespace Syntax

/-- A body that can stand between single quotes: a backslash takes the next character with it, and
no quote stands without one. -/
inductive QuotedBody : List Char → Prop
  | nil : QuotedBody []
  | plain {c : Char} {cs : List Char} (hquote : c ≠ '\'') (hslash : c ≠ '\\')
      (h : QuotedBody cs) : QuotedBody (c :: cs)
  | pair (c : Char) {cs : List Char} (h : QuotedBody cs) : QuotedBody ('\\' :: c :: cs)

/-- The value of a body, read once from the left: of an escaped backslash or quote the backslash is
dropped, and any other pair stays as it is written. -/
def unescape : List Char → List Char
  | '\\' :: c :: cs =>
    if c = '\\' ∨ c = '\'' then c :: unescape cs else '\\' :: c :: unescape cs
  | c :: cs => c :: unescape cs
  | [] => []

/-- A text with a backslash before each of its backslashes and quotes. -/
def escape (cs : List Char) : List Char :=
  cs.flatMap fun c => if c = '\\' ∨ c = '\'' then ['\\', c] else [c]

variable {c : Char} {cs body : List Char}

theorem unescape_cons (h : c ≠ '\\') : unescape (c :: cs) = c :: unescape cs := by
  rw [unescape]
  rintro d ds rfl
  exact absurd rfl h

theorem quotedBody_escape (cs : List Char) : QuotedBody (escape cs) := by
  induction cs with
  | nil => exact .nil
  | cons c cs ih =>
    rw [escape, List.flatMap_cons]
    split
    · exact .pair c ih
    · next hc =>
      obtain ⟨hslash, hquote⟩ := not_or.1 hc
      exact .plain hquote hslash ih

theorem unescape_escape (cs : List Char) : unescape (escape cs) = cs := by
  induction cs with
  | nil => rfl
  | cons c cs ih =>
    rw [escape, List.flatMap_cons]
    split
    · next hc =>
      show unescape ('\\' :: c :: escape cs) = c :: cs
      rw [unescape, if_pos hc, ih]
    · next hc =>
      show unescape (c :: escape cs) = c :: cs
      rw [unescape_cons (not_or.1 hc).1, ih]

/-- Undoing escaped backslashes leaves no quote at the front, since the one that stands there in the
source has its backslash before it. -/
theorem QuotedBody.head?_ne (h : QuotedBody body) :
    (Text.replacePair '\\' '\\' '\\' body).head? ≠ some '\'' := by
  cases h with
  | nil => simp [Text.replacePair]
  | plain hquote hslash h =>
    rw [Text.replacePair_cons_of_ne hslash]
    simpa using hquote
  | pair c h =>
    by_cases hc : c = '\\'
    · subst hc
      simp [Text.replacePair_pair]
    · rw [Text.replacePair_cons_of_head? (by simpa using hc)]
      simp

theorem QuotedBody.singleQuoted_eq (h : QuotedBody body) : singleQuoted body = unescape body := by
  induction h with
  | nil => rfl
  | plain hquote hslash h ih =>
    rw [singleQuoted, Text.replacePair_cons_of_ne hslash, Text.replacePair_cons_of_ne hslash,
      unescape_cons hslash, ← ih, singleQuoted]
  | pair c h ih =>
    rw [singleQuoted] at ih
    rw [singleQuoted, unescape]
    by_cases hslash : c = '\\'
    · -- The backslash that is left does not escape what follows.
      subst hslash
      rw [Text.replacePair_pair, Text.replacePair_cons_of_head? h.head?_ne, ih, if_pos (.inl rfl)]
    · rw [Text.replacePair_cons_of_head? (by simpa using hslash), Text.replacePair_cons_of_ne hslash]
      by_cases hquote : c = '\''
      · subst hquote
        rw [Text.replacePair_pair, ih, if_pos (.inr rfl)]
      · rw [Text.replacePair_cons_of_head? (by simpa using hquote),
          Text.replacePair_cons_of_ne hslash, ih, if_neg (not_or.2 ⟨hslash, hquote⟩)]

theorem unquote?_quoted (quote : Char) (body : List Char) :
    unquote? quote (quote :: (body ++ [quote])) = some body := by
  rw [unquote?, Text.stripPrefix?, if_pos rfl, Text.stripPrefix?, Option.bind_some,
    Text.stripSuffix?_concat]

theorem unquote?_of_ne {quote other : Char} (h : quote ≠ other) (cs : List Char) :
    unquote? quote (other :: cs) = none := by
  rw [unquote?, Text.stripPrefix?, if_neg h, Option.bind_none]

section

variable {mark : String} (hmark : mark ∈ ["", "b", "B"])
include hmark

theorem dropBinaryMark_marked {quote : Char} (hquote : quote = '\'' ∨ quote = '"')
    (cs : List Char) : dropBinaryMark (mark.toList ++ quote :: cs) = quote :: cs := by
  simp only [List.mem_cons, List.not_mem_nil, or_false] at hmark
  obtain rfl | rfl | rfl := hmark <;> obtain rfl | rfl := hquote <;> rfl

theorem literalValue?_single (body : List Char) :
    literalValue? (mark ++ "'" ++ String.ofList body ++ "'") =
      some (String.ofList (singleQuoted body)) := by
  have htext : (mark ++ "'" ++ String.ofList body ++ "'").toList =
      mark.toList ++ '\'' :: (body ++ ['\'']) := by simp
  rw [literalValue?, htext, dropBinaryMark_marked hmark (.inl rfl), unquote?_quoted]

theorem literalValue?_double (body : String) :
    literalValue? (mark ++ "\"" ++ body ++ "\"") =
      if '$' ∈ body.toList ∨ '\\' ∈ body.toList then none else some body := by
  have htext : (mark ++ "\"" ++ body ++ "\"").toList =
      mark.toList ++ '"' :: (body.toList ++ ['"']) := by simp
  rw [literalValue?, htext, dropBinaryMark_marked hmark (.inr rfl)]
  simp only [unquote?_of_ne (show '\'' ≠ '"' by decide), unquote?_quoted, String.ofList_toList]
  simp

/-- Every text is the value of its escaped form between single quotes. The value of any body between
single quotes is what one reading from the left gives, and that of a body between double quotes is
the body itself, where nothing in it is filled in or escaped. -/
theorem literalValue?_quoted :
    (∀ s : String,
      literalValue? (mark ++ "'" ++ String.ofList (escape s.toList) ++ "'") = some s) ∧
      (∀ body, QuotedBody body →
        literalValue? (mark ++ "'" ++ String.ofList body ++ "'") =
          some (String.ofList (unescape body))) ∧
      ∀ body : String,
        literalValue? (mark ++ "\"" ++ body ++ "\"") =
          if '$' ∈ body.toList ∨ '\\' ∈ body.toList then none else some body := by
  have hsingle (body : List Char) (h : QuotedBody body) :
      literalValue? (mark ++ "'" ++ String.ofList body ++ "'") =
        some (String.ofList (unescape body)) := by
    rw [literalValue?_single hmark, h.singleQuoted_eq]
  refine ⟨fun s => ?_, hsingle, literalValue?_double hmark⟩
  rw [hsingle _ (quotedBody_escape s.toList), unescape_escape, String.ofList_toList]

end

/-- A backslash, a quote behind two more and a pair that is no escape, in a binary string. -/
theorem literalValue?_binaryPath :
    "b" ∈ ["", "b", "B"] ∧ QuotedBody "\\\\a\\\\\\'\\n".toList ∧
      literalValue? "b'\\\\a\\\\\\'\\n'" = some "\\a\\'\\n" := by
  have hmark : "b" ∈ ["", "b", "B"] := by decide
  have hbody : QuotedBody "\\\\a\\\\\\'\\n".toList :=
    .pair '\\' (.plain (by decide) (by decide) (.pair '\\' (.pair '\'' (.pair 'n' .nil))))
  obtain ⟨-, hvalue, -⟩ := literalValue?_quoted hmark
  exact ⟨hmark, hbody, hvalue _ hbody⟩

end Syntax

end Stubsmith
