import Stubsmith.Text.Edges

namespace Stubsmith

/-- Each modifier stands or does not, whatever the order and the number of its mentions. -/
structure Modifiers where
  isPublic : Bool := false
  isProtected : Bool := false
  isPrivate : Bool := false
  isStatic : Bool := false
  isAbstract : Bool := false
  isFinal : Bool := false
  isReadonly : Bool := false
  /-- The old marker of a property without a visibility. -/
  isVar : Bool := false
deriving DecidableEq, Repr, Inhabited

namespace Modifiers

def union (a b : Modifiers) : Modifiers where
  isPublic := a.isPublic || b.isPublic
  isProtected := a.isProtected || b.isProtected
  isPrivate := a.isPrivate || b.isPrivate
  isStatic := a.isStatic || b.isStatic
  isAbstract := a.isAbstract || b.isAbstract
  isFinal := a.isFinal || b.isFinal
  isReadonly := a.isReadonly || b.isReadonly
  isVar := a.isVar || b.isVar

/-- The set of one modifier, from its keyword in any case of its ASCII letters. -/
def ofKeyword? (word : String) : Option Modifiers :=
  match Text.lowercase word with
  | "public" => some { isPublic := true }
  | "protected" => some { isProtected := true }
  | "private" => some { isPrivate := true }
  | "static" => some { isStatic := true }
  | "abstract" => some { isAbstract := true }
  | "final" => some { isFinal := true }
  | "readonly" => some { isReadonly := true }
  | "var" => some { isVar := true }
  | _ => none

/-- The keywords of a set, in the order of the fields. -/
def keywords (m : Modifiers) : List String :=
  [(m.isPublic, "public"), (m.isProtected, "protected"), (m.isPrivate, "private"),
    (m.isStatic, "static"), (m.isAbstract, "abstract"), (m.isFinal, "final"),
    (m.isReadonly, "readonly"), (m.isVar, "var")].filterMap fun (stands, word) =>
      if stands then some word else none

/-- The set named by some keywords; a word that is no keyword adds nothing. -/
def ofKeywords (words : List String) : Modifiers :=
  words.foldl (fun m word => m.union ((ofKeyword? word).getD {})) {}

end Modifiers

end Stubsmith
