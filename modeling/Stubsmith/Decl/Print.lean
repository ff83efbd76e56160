import Stubsmith.Decl.Basic
import Stubsmith.Text.Blank
import Stubsmith.Text.Layout

namespace Stubsmith

open Text

/-- A line of a doc comment after the first, without its indentation. One that starts with a star is
set one space in. -/
def docLine (line : String) : String :=
  let bare := trim line
  if bare.toList.head? = some '*' then " " ++ bare else bare

/-- The lines of a doc comment without their indentation. -/
def docLines (doc : String) : List String :=
  match lines doc with
  | [] => []
  | first :: rest => trim first :: rest.map docLine

/-- Modifiers in the order of writing, each with a space after it. The old property marker is not
among them. -/
def Modifiers.written (m : Modifiers) : String :=
  String.join <|
    [(m.isAbstract, "abstract "), (m.isFinal, "final "), (m.isPublic, "public "),
      (m.isProtected, "protected "), (m.isPrivate, "private "), (m.isStatic, "static "),
      (m.isReadonly, "readonly ")].map fun (stands, word) => if stands then word else ""

def typeBefore (hint : Option Fragment) : String :=
  match hint with
  | some t => t ++ " "
  | none => ""

def typeAfter (hint : Option Fragment) : String :=
  match hint with
  | some t => ": " ++ t
  | none => ""

/-- A value behind an equals sign, where there is one. -/
def initialAfter (value : Option Fragment) : String :=
  match value with
  | some v => " = " ++ v
  | none => ""

def commaSeparated (parts : List String) : String :=
  String.intercalate ", " parts

def Param.written (p : Param) : String :=
  String.join (p.attributes.map (· ++ " ")) ++ p.modifiers.written ++ typeBefore p.typeHint ++
    (if p.byRef then "&" else "") ++ (if p.variadic then "..." else "") ++ "$" ++ p.name ++
    initialAfter p.initial

/-- A name with its parameters and its return type. -/
def signature (byRef : Bool) (name : String) (params : List Param) (returnType : Option Fragment) :
    String :=
  "function " ++ (if byRef then "&" else "") ++ name ++ "(" ++
    commaSeparated (params.map Param.written) ++ ")" ++ typeAfter returnType

def ClassKind.keyword : ClassKind → String
  | .classType => "class"
  | .interfaceType => "interface"
  | .traitType => "trait"
  | .enumType => "enum"

/-- A keyword with the names that it introduces, nothing for none. -/
def namesAfter (keyword : String) (names : List String) : String :=
  if names.isEmpty then "" else keyword ++ commaSeparated names

def ClassHead.written (c : ClassHead) : String :=
  c.modifiers.written ++ c.kind.keyword ++
    (match c.name with
      | some name => " " ++ name
      | none => "") ++
    typeAfter c.backingType ++ namesAfter " extends " c.parents ++
    namesAfter " implements " c.interfaces

def FunctionHead.written (f : FunctionHead) : String :=
  signature f.byRef f.name f.params f.returnType

def MethodHead.written (m : MethodHead) : String :=
  m.modifiers.written ++ signature m.byRef m.name m.params m.returnType

def PropertyItem.written (i : PropertyItem) : String :=
  "$" ++ i.name ++ initialAfter i.initial

/-- A property shows the old marker where it has no other modifier to show. -/
def PropertyDecl.written (p : PropertyDecl) : String :=
  (if p.modifiers.written = "" then "var " else p.modifiers.written) ++ typeBefore p.typeHint ++
    commaSeparated (p.items.map PropertyItem.written) ++ ";"

def ConstItem.written (i : ConstItem) : String :=
  i.name ++ " = " ++ i.value

def ClassConstDecl.written (c : ClassConstDecl) : String :=
  c.modifiers.written ++ "const " ++ typeBefore c.typeHint ++
    commaSeparated (c.items.map ConstItem.written) ++ ";"

def TraitUse.written (u : TraitUse) : String :=
  "use " ++ commaSeparated u.traits ++
    match u.adaptations with
    | some block => " " ++ block
    | none => ";"

def EnumCase.written (c : EnumCase) : String :=
  "case " ++ c.name ++ initialAfter c.value ++ ";"

def ConstDecl.written (c : ConstDecl) : String :=
  "const " ++ commaSeparated (c.items.map ConstItem.written) ++ ";"

def DefineCall.written (d : DefineCall) : String :=
  "define(" ++ commaSeparated d.args ++ ");"

def AssignTarget.written : AssignTarget → String
  | .plain name => "$" ++ name
  | .globalsEntry _ literal => "$GLOBALS[" ++ literal ++ "]"
  | .place text => text

def Assignment.written (a : Assignment) : String :=
  a.target.written ++ " = " ++ a.value ++ ";"

def Decl.attributes : Decl → List Fragment
  | .function h _ => h.attributes
  | .classLike h _ => h.attributes
  | .method h _ => h.attributes
  | .property p => p.attributes
  | .classConst c => c.attributes
  | .enumCase c => c.attributes
  | _ => []

/-- A text that is being written, and the depth at which its next lines are set. -/
structure Printer where
  out : String := ""
  depth : Nat := 0

namespace Printer

def addLine (text : String) (p : Printer) : Printer :=
  { p with out := p.out ++ (Line.mk p.depth text).render }

def addLines (texts : List String) (p : Printer) : Printer :=
  texts.foldl (fun p text => p.addLine text) p

/-- Writes something one step deeper. -/
def indented (inside : Printer → Printer) (p : Printer) : Printer :=
  let q := inside { p with depth := p.depth + 1 }
  { q with depth := q.depth - 1 }

/-- Writes something behind a heading that ends with the opening brace. -/
def headed (heading : String) (inside : Printer → Printer) (p : Printer) : Printer :=
  p |>.addLine (heading ++ " \x7b") |>.indented inside |>.addLine "\x7d"

/-- Writes something below a heading, between braces that stand on lines of their own. -/
def braced (heading : String) (inside : Printer → Printer) (p : Printer) : Printer :=
  p |>.addLine heading |>.addLine "\x7b" |>.indented inside |>.addLine "\x7d"

def doc (comment : Option String) (p : Printer) : Printer :=
  match comment with
  | some text => p.addLines (docLines text)
  | none => p

/-- Writes what stands above a declaration: its doc comment, then its attributes. -/
def preamble (d : Decl) (p : Printer) : Printer :=
  p |>.doc d.doc? |>.addLines d.attributes

mutual

/-- Writes a declaration below its preamble. -/
def core : Decl → Printer → Printer
  | .space (some name) body, p => p.headed ("namespace " ++ name) (declarations body)
  | .space none body, p => p.headed "namespace" (declarations body)
  | .function h body, p => p.braced h.written (declarations body)
  | .classLike h body, p => p.braced h.written (declarations body)
  | .method h (some body), p => p.braced h.written (declarations body)
  | .method h none, p => p.addLine (h.written ++ ";")
  | .property d, p => p.addLine d.written
  | .classConst c, p => p.addLine c.written
  | .traitUse u, p => p.addLine u.written
  | .enumCase c, p => p.addLine c.written
  | .const c, p => p.addLine c.written
  | .define d, p => p.addLine d.written
  | .assign a, p => p.addLine a.written
  | .guarded condition body, p => p.headed ("if (" ++ condition ++ ")") (declarations body)
  | .verbatim text _, p => p.addLine text

/-- Writes declarations one below the other, with a blank line between each two. -/
def declarations : List Decl → Printer → Printer
  | [], p => p
  | [d], p => core d (p.preamble d)
  | d :: ds, p => declarations ds ((core d (p.preamble d)).addLine "")

end

end Printer

/-- A whole PHP file. The header stands right below the opening tag unless it is blank. -/
def Decl.printFile (header : Option String) (ds : List Decl) : String :=
  let opened := ({} : Printer).addLine "<?php"
  let titled :=
    match (header.map trim).filter (· ≠ "") with
    | some text => opened.addLine text
    | none => opened
  if ds.isEmpty then titled.out else (titled.addLine "" |>.declarations ds).out

end Stubsmith
