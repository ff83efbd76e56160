import Stubsmith.Proofs.Declared
import Stubsmith.Proofs.EmissionOrder
import Stubsmith.Proofs.FlatWalk
import Stubsmith.Stubs.Result

namespace Stubsmith

namespace ClassHead

/-- Whether no code outside of a class or an enum can reach members with some modifiers. -/
def seals (h : ClassHead) (m : Modifiers) : Bool :=
  match h.kind with
  | .classType => m.isPrivate || (m.isProtected && h.modifiers.isFinal)
  | .enumType => m.isPrivate || m.isProtected
  | .interfaceType | .traitType => false

/-- Whether a class-like seals a method, a property or a class constant. -/
def withholds (h : ClassHead) : Decl → Bool
  | .method m _ => h.seals m.modifiers
  | .property p => h.seals p.modifiers
  | .classConst c => h.seals c.modifiers
  | _ => false

theorem isInaccessible_eq_withholds (h : ClassHead) (d : Decl) :
    Request.isInaccessible h.kind h.isExtensible d = h.withholds d := by
  have hseals (m : Modifiers) : ((h.kind == .classType || h.kind == .enumType) &&
      (m.isPrivate || (!h.isExtensible && m.isProtected))) = h.seals m := by
    rw [seals, isExtensible]
    cases h.kind <;> simp [Bool.and_comm]
  cases d <;> simp [Request.isInaccessible, Request.accessModifiers?, withholds, hseals]

end ClassHead

namespace Options

variable (o : Options)

mutual

/-- What options leave of a declaration of the output. -/
def apply : Decl → Decl
  | .space name body => .space name (applyAll body)
  | .classLike h body => .classLike h (body.filter fun d => o.keepInaccessible || !h.withholds d)
  | .assign a => .assign { a with value := if o.nullifyGlobals then "null" else a.value }
  | d => d

def applyAll : List Decl → List Decl
  | [] => []
  | d :: ds => apply d :: applyAll ds

end

theorem applyAll_eq_map (ds : List Decl) : o.applyAll ds = ds.map o.apply := by
  induction ds with
  | nil => rfl
  | cons d ds ih => rw [applyAll, ih, List.map_cons]

def applyCandidate (c : Candidate) : Candidate :=
  { c with decl := o.apply c.decl }

def applyGroup (g : Group) : Group where
  space := g.space
  body := g.body.map o.apply

def applyDescriptor (d : Descriptor) : Descriptor :=
  { d with
    classLike :=
      { d.classLike with
        body := d.classLike.body.filter fun m =>
          o.keepInaccessible || !d.classLike.head.withholds m } }

def applyRegistry (r : Registry) : Registry :=
  { r with descriptors := r.descriptors.map o.applyDescriptor }

end Options

/-- The run for the same symbols that leaves nothing out. -/
def Request.full (r : Request) : Request :=
  { r with options := { nullifyGlobals := false, keepInaccessible := true } }

namespace Request

variable (r : Request)

theorem newItems_full (space : String) (seen : List SymbolKey) (items : List ConstItem) :
    r.full.newItems space seen items = r.newItems space seen items := by
  induction items generalizing seen with
  | nil => rfl
  | cons item items ih =>
    rw [newItems, newItems, ih]
    rfl

theorem stubBody_full (h : ClassHead) (body : List Decl) :
    r.stubBody h body =
      (r.full.stubBody h body).filter fun d => r.options.keepInaccessible || !h.withholds d := by
  simp only [stubBody, full, ← ClassHead.isInaccessible_eq_withholds, List.filter_map,
    Function.comp_def, isInaccessible_stubMember, Bool.true_or, List.filter_true]

/-- A stub is that of the full run under the options. -/
theorem stub?_full (seen : List SymbolKey) (c : Candidate) :
    r.stub? seen c = (r.full.stub? seen c).map r.options.apply := by
  have hnew : r.full.isNew seen = r.isNew seen := rfl
  cases hc : c.decl with
  | function h body =>
    cases hany : c.symbols.any (r.isNew seen) <;> simp [stub?, hc, hnew, hany, Options.apply]
  | classLike h body =>
    cases hany : c.symbols.any (r.isNew seen) <;>
      simp [stub?, hc, hnew, hany, Options.apply, stubBody_full r h body]
  | define d =>
    cases hany : c.symbols.any (r.isNew seen) <;> simp [stub?, hc, hnew, hany, Options.apply]
  | const k =>
    cases hitems : r.newItems c.space seen k.items <;>
      simp [stub?, hc, newItems_full, hitems, Options.apply]
  | assign a =>
    cases hguard : c.guarded with
    | true => simp [stub?, hc, hguard]
    | false =>
      cases htarget : plainTarget a.target with
      | plain name =>
        cases hselected : r.selection.hasGlobal a.doc.isSome <;>
          simp [stub?, hc, hguard, htarget, hselected, Options.apply, full]
      | globalsEntry key literal => simp [stub?, hc, hguard, htarget]
      | place text => simp [stub?, hc, hguard, htarget]
  | _ => simp [stub?, hc]

/-- A run keeps the candidates that the full run keeps. -/
theorem keptFrom_full (seen : List SymbolKey) (cs : List Candidate) :
    r.keptFrom seen cs = (r.full.keptFrom seen cs).map r.options.applyCandidate := by
  induction cs generalizing seen with
  | nil => rfl
  | cons c cs ih =>
    have hcounted : r.full.counted c = r.counted c := rfl
    have hkept : r.kept? seen c = (r.full.kept? seen c).map r.options.applyCandidate := by
      rw [kept?, kept?, stub?_full, Option.map_map, Option.map_map]
      rfl
    rw [keptFrom, keptFrom, ih, hkept, hcounted, List.map_append, Option.toList_map]

end Request

namespace Options

variable (o : Options)

theorem symbols_applyCandidate (c : Candidate) : (o.applyCandidate c).symbols = c.symbols := by
  obtain ⟨place, guarded, d⟩ := c
  cases d <;> rfl

theorem isClassLike_apply (d : Decl) : (o.apply d).isClassLike = d.isClassLike := by
  cases d <;> rfl

theorem placedIn_map (site : Option (Nat × String)) (kept : List Candidate) :
    Candidate.placedIn site (kept.map o.applyCandidate) =
      (Candidate.placedIn site kept).map o.apply := by
  have hfilter (c : Candidate) : ((o.applyCandidate c).place == site &&
      !(o.applyCandidate c).decl.isClassLike) = (c.place == site && !c.decl.isClassLike) := by
    rw [applyCandidate, isClassLike_apply]
  simp only [Candidate.placedIn, List.filter_map, Function.comp_def, hfilter, List.map_map]
  rfl

theorem spacesFrom_map (n : Nat) (kept : List Candidate) (ds : List Decl) :
    Candidate.spacesFrom n (kept.map o.applyCandidate) ds =
      (Candidate.spacesFrom n kept ds).map o.applyGroup := by
  induction ds generalizing n with
  | nil => rfl
  | cons d ds ih =>
    cases d with
    | space name body =>
      rw [Candidate.spacesFrom, Candidate.spacesFrom, placedIn_map, ih, List.map_append]
      cases Candidate.placedIn (some (n, name.getD "")) kept <;> rfl
    | _ => exact ih (n + 1)

/-- No member that is left out uses a trait. -/
theorem ofClassLike_apply (space : String) (h : ClassHead) (body : List Decl) :
    Descriptor.ofClassLike space
        ⟨h, body.filter fun d => o.keepInaccessible || !h.withholds d⟩ =
      o.applyDescriptor (.ofClassLike space ⟨h, body⟩) := by
  have htraits : (body.filter fun d => o.keepInaccessible || !h.withholds d).flatMap
      Descriptor.usedTraits = body.flatMap Descriptor.usedTraits := by
    induction body with
    | nil => rfl
    | cons d body ih =>
      rw [List.filter_cons, List.flatMap_cons, ← ih]
      split
      · rfl
      · next hd =>
        have hnone : Descriptor.usedTraits d = [] := by
          cases d with
          | traitUse u => simp [ClassHead.withholds] at hd
          | _ => rfl
        rw [hnone, List.nil_append]
  simp only [Descriptor.ofClassLike, Descriptor.bodyNames, htraits, applyDescriptor]

theorem filterMap_descriptor? (kept : List Candidate) :
    (kept.map o.applyCandidate).filterMap Candidate.descriptor? =
      (kept.filterMap Candidate.descriptor?).map o.applyDescriptor := by
  have hdescriptor (c : Candidate) : (o.applyCandidate c).descriptor? =
      c.descriptor?.map o.applyDescriptor := by
    obtain ⟨place, guarded, d⟩ := c
    cases d with
    | classLike h body => exact congrArg some (o.ofClassLike_apply _ h body)
    | _ => rfl
  rw [List.filterMap_map, List.map_filterMap]
  exact List.filterMap_congr fun c _ => hdescriptor c

theorem insert_apply (r : Registry) (d : Descriptor) :
    (o.applyRegistry r).insert (o.applyDescriptor d) = o.applyRegistry (r.insert d) := by
  have hslot : (o.applyRegistry r).slot? (o.applyDescriptor d).fullName = r.slot? d.fullName := rfl
  rw [Registry.insert, Registry.insert, hslot]
  cases r.slot? d.fullName with
  | some slot => simp [applyRegistry, List.map_set]
  | none => simp [applyRegistry, applyDescriptor]

theorem insertAll_apply (r : Registry) (ds : List Descriptor) :
    (o.applyRegistry r).insertAll (ds.map o.applyDescriptor) = o.applyRegistry (r.insertAll ds) := by
  induction ds generalizing r with
  | nil => rfl
  | cons d ds ih =>
    have hinsert := o.insert_apply r d
    rw [List.map_cons, Registry.insertAll, List.foldl_cons, hinsert]
    exact ih (r.insert d)

theorem append_apply (gs : List Group) (d : Descriptor) :
    Placement.append (gs.map o.applyGroup) (o.applyDescriptor d) =
      (Placement.append gs d).map o.applyGroup := by
  have hdecl : (o.applyDescriptor d).toDecl = o.apply d.toDecl := rfl
  have hspace : (o.applyDescriptor d).space = d.space := rfl
  induction gs with
  | nil => rfl
  | cons g gs ih =>
    cases gs with
    | nil =>
      rw [List.map_singleton, Placement.append, Placement.append, hdecl, hspace]
      by_cases h : g.space = d.space <;> simp [applyGroup, h]
    | cons g' gs =>
      rw [List.map_cons, List.map_cons, Placement.append, Placement.append, List.map_cons, ← ih,
        List.map_cons]

theorem groupsOf_map (ds : List Descriptor) :
    Placement.groupsOf (ds.map o.applyDescriptor) = (Placement.groupsOf ds).map o.applyGroup := by
  have hfold (gs : List Group) :
      (ds.map o.applyDescriptor).foldl Placement.append (gs.map o.applyGroup) =
        (ds.foldl Placement.append gs).map o.applyGroup := by
    induction ds generalizing gs with
    | nil => rfl
    | cons d ds ih => rw [List.map_cons, List.foldl_cons, append_apply, ih, List.foldl_cons]
  exact hfold []

/-- The order of writing depends on names alone. -/
theorem ordered_apply (r : Registry) :
    (o.applyRegistry r).ordered = r.ordered.map o.applyDescriptor := by
  have hgraph : (o.applyRegistry r).graph = r.graph := by
    simp only [Registry.graph, applyRegistry, List.map_map]
    rfl
  rw [Registry.ordered, Registry.ordered, hgraph, Registry.atSlots, Registry.atSlots,
    List.map_filterMap]
  apply List.filterMap_congr
  intro i _
  exact List.getElem?_map

theorem groups_map (ds : List Descriptor) :
    (Registry.insertAll {} (ds.map o.applyDescriptor)).groups =
      (Registry.insertAll {} ds).groups.map o.applyGroup := by
  have hr := Registry.consistent_insertAll ds Registry.consistent_empty
  have hr' := Registry.consistent_insertAll (ds.map o.applyDescriptor) Registry.consistent_empty
  have hregistry : Registry.insertAll {} (ds.map o.applyDescriptor) =
      o.applyRegistry (Registry.insertAll {} ds) := o.insertAll_apply {} ds
  rw [Registry.groups_eq hr', Registry.groups_eq hr, ← groupsOf_map, ← ordered_apply, hregistry]

theorem toDecl_applyGroup (g : Group) : (o.applyGroup g).toDecl = o.apply g.toDecl := by
  rw [Group.toDecl, Group.toDecl, apply, applyAll_eq_map]
  rfl

theorem globalSpace_map (ds : List Decl) :
    Extract.globalSpace (ds.map o.apply) = (Extract.globalSpace ds).map o.apply := by
  cases ds with
  | nil => rfl
  | cons d ds => simp [Extract.globalSpace, apply, applyAll_eq_map]

theorem assemble_map {x y : Extract} (hgroups : x.groups = y.groups.map o.applyGroup)
    (hstatements : x.statements = y.statements.map o.apply)
    (hexpressions : x.expressions = y.expressions.map o.apply) :
    x.assemble = y.assemble.map o.apply := by
  have hglobal : x.groups.all Group.isGlobal = y.groups.all Group.isGlobal := by
    rw [hgroups, List.all_map]
    rfl
  rw [Extract.assemble, Extract.assemble, hglobal, hgroups, hstatements, hexpressions]
  cases y.groups.all Group.isGlobal with
  | true =>
    have hbody : (y.groups.map o.applyGroup).flatMap Group.body =
        (y.groups.flatMap Group.body).map o.apply := by
      rw [List.flatMap_map, List.map_flatMap]
      rfl
    simp only [if_true, hbody, List.map_append]
  | false =>
    have hspaces : (y.groups.map o.applyGroup).map Group.toDecl =
        (y.groups.map Group.toDecl).map o.apply := by
      simp only [List.map_map, Function.comp_def, toDecl_applyGroup]
    simp only [Bool.false_eq_true, if_false, hspaces, globalSpace_map, List.map_append]

/-- Options leave every declaration in its namespace and under its name. -/
theorem declaredAll_map (ds : List Decl) :
    Decl.declaredAll (ds.map o.apply) = Decl.declaredAll ds := by
  have hdeclared (space : String) (d : Decl) :
      (o.apply d).declared space = d.declared space := by
    cases d with
    | assign a =>
      obtain ⟨doc, target, value⟩ := a
      cases target <;> rfl
    | _ => rfl
  rw [Decl.declaredAll, Decl.declaredAll, Decl.spread, Decl.spread, List.flatMap_map,
    List.flatMap_assoc, List.flatMap_assoc]
  apply List.flatMap_congr
  intro d _
  cases d with
  | space name body =>
    simp only [apply, applyAll_eq_map, List.map_map, List.flatMap_map, Function.comp_def, hdeclared]
  | _ => exact congrArg (· ++ []) (hdeclared _ _)

end Options

namespace Request

variable (r : Request)

/-- What a run finds is what the full run finds, under the options. -/
theorem extract_full {files : List (List Decl)} (hfiles : ∀ ds ∈ files, Decl.fitsAll .file ds) :
    let x := r.extract files
    let y := r.full.extract files
    x.groups = y.groups.map r.options.applyGroup ∧
      x.statements = y.statements.map r.options.apply ∧
      x.expressions = y.expressions.map r.options.apply ∧
      x.tally.counts = y.tally.counts ∧ x.tally.retained = y.tally.retained := by
  intro x y
  obtain ⟨hxspaces, hx⟩ := follows_extract (r := r) hfiles
  obtain ⟨hyspaces, hy⟩ := follows_extract (r := r.full) hfiles
  have hcounted : r.full.counted = r.counted := rfl
  rw [keptFrom_full] at hxspaces hx
  rw [hcounted] at hy
  have hsymbols : ((r.full.keptFrom [] (Decl.candidatesFrom 0 files.flatten)).map
      r.options.applyCandidate).flatMap Candidate.symbols =
        (r.full.keptFrom [] (Decl.candidatesFrom 0 files.flatten)).flatMap Candidate.symbols := by
    simp only [List.flatMap_map, Options.symbols_applyCandidate]
  refine ⟨?_, ?_, ?_, ?_, ?_⟩
  · rw [Extract.groups, Extract.groups, hx.classLikes, hxspaces, hy.classLikes, hyspaces,
      Options.filterMap_descriptor?, Options.groups_map, Options.spacesFrom_map, List.map_append]
  · rw [hx.statements, hy.statements, Options.placedIn_map]
  · rw [hx.expressions, hy.expressions]
    rfl
  · rw [hx.tally.counts, hy.tally.counts]
  · rw [hx.tally.retained, hy.tally.retained, hsymbols]

/-- Options are maps over the output: they replace values of globals and take members out of classes
and enums. What is declared, in which order and namespaces, and what is reported does not depend on
them. -/
theorem result_extract_options (files : List (List Decl)) (unparsed : List Unparsed)
    (hfiles : ∀ ds ∈ files, Decl.fitsAll .file ds) :
    let out := (r.extract files).result unparsed
    let whole := (r.full.extract files).result unparsed
    out.statements = whole.statements.map r.options.apply ∧
      Decl.declaredAll out.statements = Decl.declaredAll whole.statements ∧
      out.stats = whole.stats ∧ out.duplicates = whole.duplicates ∧
      out.unparsed = whole.unparsed := by
  intro out whole
  obtain ⟨hgroups, hstatements, hexpressions, hcounts, hretained⟩ := r.extract_full hfiles
  have hout : out.statements = whole.statements.map r.options.apply :=
    r.options.assemble_map hgroups hstatements hexpressions
  refine ⟨hout, ?_, ?_, ?_, ?_⟩
  · rw [hout, Options.declaredAll_map]
  · simp only [out, whole, Extract.result, Tally.stats, Tally.retainedCount, hretained]
  · simp only [out, whole, Extract.result, Tally.duplicates, hcounts]
  · simp only [out, whole, Extract.result]

/-- A documented global, and a final class with a private, a protected and a public member. -/
def sealedFiles : List (List Decl) :=
  [[.assign ⟨some "/** kept */", .plain "g", "1"⟩,
    .classLike { kind := .classType, modifiers := { isFinal := true }, name := some "C" }
      [.method { modifiers := { isPrivate := true }, name := "m" } (some []),
        .property { modifiers := { isProtected := true }, items := [⟨"p", none⟩] },
        .classConst { items := [⟨"X", "1"⟩] }]]]

theorem result_sealedFiles :
    (∀ ds ∈ sealedFiles, Decl.fitsAll .file ds) ∧
      let r : Request := { options := { nullifyGlobals := true } }
      let out := (r.extract sealedFiles).result []
      let whole := (r.full.extract sealedFiles).result []
      out.statements = whole.statements.map r.options.apply ∧
        out.statements.map (fun d => d.children?.map List.length) = [some 1, none] ∧
        whole.statements.map (fun d => d.children?.map List.length) = [some 3, none] := by
  have hfiles : ∀ ds ∈ sealedFiles, Decl.fitsAll .file ds := by decide
  refine ⟨hfiles, ?_⟩
  intro r out whole
  obtain ⟨hstatements, -⟩ := result_extract_options r sealedFiles [] hfiles
  exact ⟨hstatements, by decide +kernel, by decide +kernel⟩

end Request

end Stubsmith
