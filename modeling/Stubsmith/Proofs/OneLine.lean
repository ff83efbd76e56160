import Stubsmith.Proofs.Layout
import Stubsmith.Proofs.TextEdges

namespace Stubsmith

open Text

namespace Text

def OneLines (parts : List String) : Prop :=
  ∀ part ∈ parts, OneLine part

section

variable {α : Type} {part : String} {parts others : List String} {xs : List α}

@[simp]
theorem oneLines_nil : OneLines [] := by
  simp [OneLines]

@[simp]
theorem oneLines_cons : OneLines (part :: parts) ↔ OneLine part ∧ OneLines parts :=
  List.forall_mem_cons

@[simp]
theorem oneLines_append : OneLines (parts ++ others) ↔ OneLines parts ∧ OneLines others :=
  List.forall_mem_append

@[simp]
theorem oneLines_map {f : α → String} : OneLines (xs.map f) ↔ ∀ x ∈ xs, OneLine (f x) :=
  List.forall_mem_map

@[simp]
theorem oneLines_flatMap {f : α → List String} :
    OneLines (xs.flatMap f) ↔ ∀ x ∈ xs, OneLines (f x) :=
  List.forall_mem_flatMap

@[simp]
theorem oneLines_toList {o : Option String} : OneLines o.toList ↔ ∀ s ∈ o, OneLine s := by
  simp [OneLines]

end

end Text

section

variable {s t : String} {parts : List String}

@[simp]
theorem oneLine_append : OneLine (s ++ t) ↔ OneLine s ∧ OneLine t := by
  simp [OneLine]

@[simp]
theorem oneLine_ite {c : Prop} [Decidable c] :
    OneLine (if c then s else t) ↔ if c then OneLine s else OneLine t := by
  split <;> rfl

@[simp]
theorem oneLine_join : OneLine (String.join parts) ↔ OneLines parts := by
  simp [OneLine, OneLines]

@[simp]
theorem oneLine_commaSeparated : OneLine (commaSeparated parts) ↔ OneLines parts := by
  rw [commaSeparated]
  induction parts with
  | nil => simp +decide
  | cons part parts ih =>
    cases parts with
    | nil => simp
    | cons next parts =>
      rw [String.intercalate_cons_cons, oneLine_append, oneLine_append, propext ih, oneLines_cons]
      simp +decide

@[simp]
theorem oneLine_typeBefore {hint : Option Fragment} :
    OneLine (typeBefore hint) ↔ ∀ t ∈ hint, OneLine t := by
  cases hint <;> simp +decide [typeBefore]

@[simp]
theorem oneLine_typeAfter {hint : Option Fragment} :
    OneLine (typeAfter hint) ↔ ∀ t ∈ hint, OneLine t := by
  cases hint <;> simp +decide [typeAfter]

@[simp]
theorem oneLine_initialAfter {value : Option Fragment} :
    OneLine (initialAfter value) ↔ ∀ v ∈ value, OneLine v := by
  cases value <;> simp +decide [initialAfter]

@[simp]
theorem Modifiers.oneLine_written (m : Modifiers) : OneLine m.written := by
  have hword {stands : Bool} {word : String} (h : OneLine word) :
      OneLine (if stands then word else "") := by
    cases stands
    · exact show OneLine "" by decide
    · exact h
  rw [written, oneLine_join]
  simp only [List.map_cons, List.map_nil, oneLines_cons, oneLines_nil, and_true]
  exact ⟨hword (by decide), hword (by decide), hword (by decide), hword (by decide),
    hword (by decide), hword (by decide), hword (by decide)⟩

end

theorem oneLine_setAt {line : String} (h : OneLine line) (depth : Nat) :
    OneLine (setAt depth line) := by
  have hmargin : OneLine (Line.margin depth) := by simp [OneLine, Line.margin]
  rw [setAt]
  split
  · decide
  · exact oneLine_append.2 ⟨hmargin, h⟩

def Param.fragments (p : Param) : List Fragment :=
  p.attributes ++ p.typeHint.toList ++ p.name :: p.initial.toList

def signatureFragments (name : String) (params : List Param) (returnType : Option Fragment) :
    List Fragment :=
  name :: params.flatMap Param.fragments ++ returnType.toList

def FunctionHead.fragments (f : FunctionHead) : List Fragment :=
  signatureFragments f.name f.params f.returnType

def MethodHead.fragments (m : MethodHead) : List Fragment :=
  signatureFragments m.name m.params m.returnType

def ClassHead.fragments (c : ClassHead) : List Fragment :=
  c.name.toList ++ c.backingType.toList ++ c.parents ++ c.interfaces

def PropertyDecl.fragments (p : PropertyDecl) : List Fragment :=
  p.typeHint.toList ++ p.items.flatMap fun i => i.name :: i.initial.toList

def ConstItem.fragments (i : ConstItem) : List Fragment :=
  [i.name, i.value]

def ClassConstDecl.fragments (c : ClassConstDecl) : List Fragment :=
  c.typeHint.toList ++ c.items.flatMap ConstItem.fragments

def TraitUse.fragments (u : TraitUse) : List Fragment :=
  u.traits ++ u.adaptations.toList

def EnumCase.fragments (c : EnumCase) : List Fragment :=
  c.name :: c.value.toList

def ConstDecl.fragments (c : ConstDecl) : List Fragment :=
  c.items.flatMap ConstItem.fragments

def AssignTarget.fragment : AssignTarget → Fragment
  | .plain name => name
  | .globalsEntry _ literal => literal
  | .place text => text

def Assignment.fragments (a : Assignment) : List Fragment :=
  [a.target.fragment, a.value]

mutual

/-- The fragments of a declaration and of what is inside of it. -/
def Decl.fragments : Decl → List Fragment
  | .space name body => name.toList ++ Decl.fragmentsAll body
  | .function h body => h.attributes ++ h.fragments ++ Decl.fragmentsAll body
  | .classLike h body => h.attributes ++ h.fragments ++ Decl.fragmentsAll body
  | .method h (some body) => h.attributes ++ h.fragments ++ Decl.fragmentsAll body
  | .method h none => h.attributes ++ h.fragments
  | .property p => p.attributes ++ p.fragments
  | .classConst c => c.attributes ++ c.fragments
  | .traitUse u => u.fragments
  | .enumCase c => c.attributes ++ c.fragments
  | .const c => c.fragments
  | .define d => d.args
  | .assign a => a.fragments
  | .guarded condition body => condition :: Decl.fragmentsAll body
  | .verbatim text _ => [text]

def Decl.fragmentsAll : List Decl → List Fragment
  | [] => []
  | d :: ds => d.fragments ++ Decl.fragmentsAll ds

end

section

theorem Param.oneLine_written {p : Param} : OneLine p.written ↔ OneLines p.fragments := by
  have hattributes : (∀ a ∈ p.attributes, OneLine a) ↔ OneLines p.attributes := Iff.rfl
  simp +decide [written, fragments, hattributes, and_assoc]

theorem oneLine_signature {byRef : Bool} {name : String} {params : List Param}
    {returnType : Option Fragment} :
    OneLine (signature byRef name params returnType) ↔
      OneLines (signatureFragments name params returnType) := by
  simp +decide [signature, signatureFragments, Param.oneLine_written, and_assoc]

theorem FunctionHead.oneLine_written {f : FunctionHead} :
    OneLine f.written ↔ OneLines f.fragments :=
  oneLine_signature

theorem MethodHead.oneLine_written {m : MethodHead} :
    OneLine m.written ↔ OneLines m.fragments := by
  rw [written, oneLine_append, oneLine_signature, fragments]
  simp

theorem oneLine_namesAfter {keyword : String} {names : List String} (h : OneLine keyword) :
    OneLine (namesAfter keyword names) ↔ OneLines names := by
  rw [namesAfter]
  cases names <;> simp +decide [h]

theorem ClassHead.oneLine_written {c : ClassHead} :
    OneLine c.written ↔ OneLines c.fragments := by
  have hkeyword : OneLine c.kind.keyword := by cases c.kind <;> decide
  have hextends : OneLine " extends " := by decide
  have himplements : OneLine " implements " := by decide
  obtain ⟨_, _, _, _, name, _, _, _⟩ := c
  cases name <;>
    simp +decide [written, fragments, hkeyword, oneLine_namesAfter hextends,
      oneLine_namesAfter himplements, and_assoc]

theorem PropertyDecl.oneLine_written {p : PropertyDecl} :
    OneLine p.written ↔ OneLines p.fragments := by
  simp +decide [written, PropertyItem.written, fragments]

theorem ConstItem.oneLine_written {i : ConstItem} : OneLine i.written ↔ OneLines i.fragments := by
  simp +decide [written, fragments]

theorem ClassConstDecl.oneLine_written {c : ClassConstDecl} :
    OneLine c.written ↔ OneLines c.fragments := by
  simp +decide [written, fragments, ConstItem.oneLine_written]

theorem TraitUse.oneLine_written {u : TraitUse} : OneLine u.written ↔ OneLines u.fragments := by
  obtain ⟨_, adaptations⟩ := u
  cases adaptations <;> simp +decide [written, fragments]

theorem EnumCase.oneLine_written {c : EnumCase} : OneLine c.written ↔ OneLines c.fragments := by
  simp +decide [written, fragments]

theorem ConstDecl.oneLine_written {c : ConstDecl} : OneLine c.written ↔ OneLines c.fragments := by
  simp +decide [written, fragments, ConstItem.oneLine_written]

theorem DefineCall.oneLine_written {d : DefineCall} : OneLine d.written ↔ OneLines d.args := by
  simp +decide [written]

theorem AssignTarget.oneLine_written {t : AssignTarget} :
    OneLine t.written ↔ OneLine t.fragment := by
  cases t <;> simp +decide [written, fragment]

theorem Assignment.oneLine_written {a : Assignment} :
    OneLine a.written ↔ OneLines a.fragments := by
  simp +decide [written, fragments, AssignTarget.oneLine_written]

end

theorem oneLine_trim {s : String} (h : OneLine s) : OneLine (trim s) := by
  rw [OneLine, trim, String.toList_ofList]
  exact fun hfeed => h ((stripBoth_sublist isBlank s.toList).subset hfeed)

theorem oneLine_docLine {line : String} (h : OneLine line) : OneLine (docLine line) := by
  have htrim := oneLine_trim h
  rw [docLine]
  split
  · exact oneLine_append.2 ⟨by decide, htrim⟩
  · exact htrim

theorem oneLines_docLines (doc : String) : OneLines (docLines doc) := by
  have hlines : OneLines (lines doc) := fun _ => oneLine_of_mem_lines
  rw [docLines]
  split
  · exact oneLines_nil
  · next first rest heq =>
    rw [heq, oneLines_cons] at hlines
    rw [oneLines_cons, oneLines_map]
    exact ⟨oneLine_trim hlines.1, fun line hline => oneLine_docLine (hlines.2 line hline)⟩

namespace Decl

variable {d : Decl} {ls : List Line}

theorem oneLines_attributes (h : OneLines d.fragments) : OneLines d.attributes := by
  cases d with
  | method m body => cases body <;> simp_all [fragments, attributes]
  | _ => simp_all [fragments, attributes]

/-- Each of the lines is one line of text. -/
def Plain (ls : List Line) : Prop :=
  ∀ l ∈ ls, OneLine l.text

theorem plain_single {text : String} (h : OneLine text) : Plain [⟨0, text⟩] :=
  List.forall_mem_singleton.2 h

theorem plain_append {ls ms : List Line} (hls : Plain ls) (hms : Plain ms) : Plain (ls ++ ms) :=
  List.forall_mem_append.2 ⟨hls, hms⟩

theorem plain_indented (h : Plain ls) : Plain (indented ls) :=
  List.forall_mem_map.2 h

theorem plain_preamble (h : OneLines d.fragments) : Plain d.preamble := by
  have hdoc : OneLines ((d.doc?.map docLines).getD []) := by
    cases d.doc? with
    | none => exact oneLines_nil
    | some doc => exact oneLines_docLines doc
  exact List.forall_mem_map.2 (oneLines_append.2 ⟨hdoc, oneLines_attributes h⟩)

theorem plain_headed {heading : String} (hheading : OneLine heading) (h : Plain ls) :
    Plain (headed heading ls) := by
  have hopen : OneLine (heading ++ " \x7b") := oneLine_append.2 ⟨hheading, by decide⟩
  have hclose : Plain [⟨0, "\x7d"⟩] := plain_single (by decide)
  exact plain_append (plain_single hopen) (plain_append (plain_indented h) hclose)

theorem plain_braced {heading : String} (hheading : OneLine heading) (h : Plain ls) :
    Plain (braced heading ls) := by
  have hopen : Plain [⟨0, "\x7b"⟩] := plain_single (by decide)
  have hclose : Plain [⟨0, "\x7d"⟩] := plain_single (by decide)
  exact plain_append (plain_single hheading)
    (plain_append hopen (plain_append (plain_indented h) hclose))

mutual

theorem plain_core : ∀ d : Decl, OneLines d.fragments → Plain d.core
  | .space (some name) body => fun h => by
    rw [fragments, Option.toList_some, oneLines_append, oneLines_cons] at h
    have hheading : OneLine ("namespace " ++ name) := oneLine_append.2 ⟨by decide, h.1.1⟩
    exact plain_headed hheading (plain_layoutAll body h.2)
  | .space none body => fun h => by
    rw [fragments, oneLines_append] at h
    exact plain_headed (by decide) (plain_layoutAll body h.2)
  | .function f body => fun h => by
    rw [fragments, oneLines_append, oneLines_append] at h
    exact plain_braced (FunctionHead.oneLine_written.2 h.1.2) (plain_layoutAll body h.2)
  | .classLike c body => fun h => by
    rw [fragments, oneLines_append, oneLines_append] at h
    exact plain_braced (ClassHead.oneLine_written.2 h.1.2) (plain_layoutAll body h.2)
  | .method m (some body) => fun h => by
    rw [fragments, oneLines_append, oneLines_append] at h
    exact plain_braced (MethodHead.oneLine_written.2 h.1.2) (plain_layoutAll body h.2)
  | .method m none => fun h => by
    rw [fragments, oneLines_append] at h
    have hsemicolon : OneLine ";" := by decide
    exact plain_single (oneLine_append.2 ⟨MethodHead.oneLine_written.2 h.2, hsemicolon⟩)
  | .property p => fun h => by
    rw [fragments, oneLines_append] at h
    exact plain_single (PropertyDecl.oneLine_written.2 h.2)
  | .classConst c => fun h => by
    rw [fragments, oneLines_append] at h
    exact plain_single (ClassConstDecl.oneLine_written.2 h.2)
  | .traitUse u => fun h => plain_single (TraitUse.oneLine_written.2 h)
  | .enumCase c => fun h => by
    rw [fragments, oneLines_append] at h
    exact plain_single (EnumCase.oneLine_written.2 h.2)
  | .const c => fun h => plain_single (ConstDecl.oneLine_written.2 h)
  | .define d => fun h => plain_single (DefineCall.oneLine_written.2 h)
  | .assign a => fun h => plain_single (Assignment.oneLine_written.2 h)
  | .guarded condition body => fun h => by
    rw [fragments, oneLines_cons] at h
    have hheading : OneLine ("if (" ++ condition ++ ")") := by simp +decide [h.1]
    exact plain_headed hheading (plain_layoutAll body h.2)
  | .verbatim text _ => fun h => plain_single (oneLines_cons.1 h).1

theorem plain_layoutAll : ∀ ds : List Decl, OneLines (fragmentsAll ds) → Plain (layoutAll ds)
  | [] => fun _ => List.forall_mem_nil _
  | [d] => fun h => by
    rw [fragmentsAll, oneLines_append] at h
    exact plain_append (plain_preamble h.1) (plain_core d h.1)
  | d :: e :: ds => fun h => by
    rw [fragmentsAll, oneLines_append] at h
    have hblank : Plain [Line.blank] := plain_single (by decide)
    exact plain_append (plain_append (plain_preamble h.1) (plain_core d h.1))
      (plain_append hblank (plain_layoutAll (e :: ds) h.2))

end

end Decl

end Stubsmith
