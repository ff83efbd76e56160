import Stubsmith.Decl.Basic

namespace Stubsmith

/-- Where a declaration may stand: at the top level of a file, among the statements of a namespace,
a guard or a body, or in a class-like. -/
inductive Level where
  | file
  | statement
  | member
deriving DecidableEq, Repr

namespace Decl

mutual

/-- Whether a declaration may stand at a level, and all below it where it stands. -/
def fits (l : Level) : Decl → Bool
  | .space _ body => l == .file && fitsAll .statement body
  | .function _ body => l != .member && fitsAll .statement body
  | .classLike _ body => l != .member && fitsAll .member body
  | .guarded _ body => l != .member && fitsAll .statement body
  | .method _ (some body) => l == .member && fitsAll .statement body
  | .method _ none => l == .member
  | .property _ => l == .member
  | .classConst _ => l == .member
  | .traitUse _ => l == .member
  | .enumCase _ => l == .member
  | .const _ => l != .member
  | .define _ => l != .member
  | .assign _ => l != .member
  | .verbatim .. => true

def fitsAll (l : Level) : List Decl → Bool
  | [] => true
  | d :: ds => fits l d && fitsAll l ds

end

/-- The statements of a file, each with the namespace that it stands in. -/
def spread (ds : List Decl) : List (Option String × Decl) :=
  ds.flatMap fun
    | .space name body => body.map (name, ·)
    | d => [(none, d)]

variable {l : Level} {ds es : List Decl}

theorem fits_file_iff {d : Decl} :
    d.fits .file ↔ (∃ name body, d = .space name body ∧ fitsAll .statement body) ∨
      d.fits .statement := by
  cases d with
  | space name body => simp [fits, and_assoc]
  | method h body => cases body <;> simp [fits]
  | _ => simp [fits]

theorem fitsAll_iff : fitsAll l ds ↔ ∀ d ∈ ds, d.fits l := by
  induction ds with
  | nil => simp [fitsAll]
  | cons d ds ih => simp [fitsAll, ih]

@[simp]
theorem fitsAll_append : fitsAll l (ds ++ es) = (fitsAll l ds && fitsAll l es) := by
  induction ds with
  | nil => simp [fitsAll]
  | cons d ds ih => simp [fitsAll, ih, Bool.and_assoc]

theorem spread_append (ds es : List Decl) :
    spread (ds ++ es) = spread ds ++ spread es :=
  List.flatMap_append

theorem spread_space (name : Option String) (body ds : List Decl) :
    spread (.space name body :: ds) = body.map (name, ·) ++ spread ds :=
  List.flatMap_cons

theorem spread_statement {d : Decl} (hd : d.fits .statement) (ds : List Decl) :
    spread (d :: ds) = (none, d) :: spread ds := by
  cases d with
  | space name body => simp [fits] at hd
  | _ => rfl

theorem fitsAll_flatten {files : List (List Decl)} (h : ∀ ds ∈ files, fitsAll l ds) :
    fitsAll l files.flatten := by
  apply fitsAll_iff.2
  intro d hd
  obtain ⟨ds, hds, hd⟩ := List.mem_flatten.1 hd
  exact fitsAll_iff.1 (h ds hds) d hd

end Decl

end Stubsmith
