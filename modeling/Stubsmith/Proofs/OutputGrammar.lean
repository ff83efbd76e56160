import Stubsmith.Proofs.Idempotence

namespace Stubsmith

namespace Decl

def isSpace : Decl → Bool
  | .space .. => true
  | _ => false

/-- A member of a class-like without the statements of a method. -/
def isStubMember : Decl → Bool
  | .method _ body => body.all List.isEmpty
  | _ => true

/-- A statement as it may stand in stubs: a declaration with a name and without a body. -/
def isStub : Decl → Bool
  | .function _ body => body.isEmpty
  | .classLike h body => h.name.isSome && body.all isStubMember
  | .const k => !k.items.isEmpty
  | .define k => k.name.isSome
  | .assign ⟨_, .plain _, _⟩ => true
  | _ => false

/-- The name of a namespace in which there are class-likes only. -/
def classLikeSpace? : Decl → Option (Option String)
  | .space name body => if body.all isClassLike then some name else none
  | _ => none

end Decl

/-- The statements of one namespace of stubs. -/
structure IsStubBlock (body : List Decl) : Prop where
  ne_nil : body ≠ []
  isStub : ∀ d ∈ body, d.isStub
  uniform : (∀ d ∈ body, d.isClassLike) ∨ ∀ d ∈ body, d.isClassLike = false

structure StubGrammar (ds : List Decl) : Prop where
  unmixed : (∀ d ∈ ds, d.isSpace) ∨ ∀ d ∈ ds, d.isStub
  blocks : ∀ name body, .space name body ∈ ds → IsStubBlock body
  /-- No class-like stands behind another declaration. -/
  classLikesFirst : (Decl.spread ds).Pairwise fun p q => q.2.isClassLike → p.2.isClassLike
  /-- Namespaces of class-likes that follow one another have different names. -/
  separate : ds.IsChain fun d e => d.classLikeSpace? = none ∨ d.classLikeSpace? ≠ e.classLikeSpace?

namespace StubOf

variable {r : Request} {seen : List SymbolKey} {c : Candidate} {stub : Decl}

theorem isStubMember_stubMember (d : Decl) : (Request.stubMember d).isStubMember := by
  cases d with
  | method h body => cases body <;> rfl
  | _ => rfl

theorem isStub (h : StubOf r seen c stub) : stub.isStub := by
  cases h with
  | @classLike h body name _ named _ =>
    have hbody : (r.stubBody h body).all Decl.isStubMember := by
      apply List.all_eq_true.2
      intro d hd
      obtain ⟨m, -, rfl⟩ := List.mem_map.1 hd
      exact isStubMember_stubMember m
    simp [Decl.isStub, named, hbody]
  | const _ some_new => simpa [Decl.isStub] using some_new
  | define _ named => simp [Decl.isStub, named]
  | _ => rfl

end StubOf

namespace Group

variable {g h : Group}

theorem classLikeSpace?_eq_none (hne : g.body ≠ []) (hg : ∀ d ∈ g.body, d.isClassLike = false) :
    g.toDecl.classLikeSpace? = none := by
  obtain ⟨d, hd⟩ := List.exists_mem_of_ne_nil _ hne
  have hall : ¬g.body.all Decl.isClassLike := by
    intro hall
    have hclass := List.all_eq_true.1 hall d hd
    rw [hg d hd] at hclass
    cases hclass
  rw [toDecl, Decl.classLikeSpace?, if_neg hall]

theorem classLikeSpace?_ne (hspace : g.space ≠ h.space) :
    g.toDecl.classLikeSpace? = none ∨ g.toDecl.classLikeSpace? ≠ h.toDecl.classLikeSpace? := by
  rw [toDecl, toDecl, Decl.classLikeSpace?, Decl.classLikeSpace?]
  by_cases hg : g.body.all Decl.isClassLike
  · right
    rw [if_pos hg]
    by_cases hh : h.body.all Decl.isClassLike
    · rw [if_pos hh, ne_eq, Option.some.injEq]
      intro heq
      have hspaces := congrArg (Option.getD · "") heq
      simp only [Candidate.getD_space_toDecl] at hspaces
      exact hspace hspaces
    · rw [if_neg hh]
      simp
  · left
    rw [if_neg hg]

end Group

namespace Registry

theorem separate_groups {r : Registry} (hr : r.Consistent) : Placement.Separate r.groups := by
  rw [groups_eq hr]
  exact Placement.separate_groupsOf _

end Registry

namespace Extract

open Candidate

variable {x : Extract} (hx : x.Arranged)

include hx

theorem isClassLike_of_mem_looseParts {g : Group} (hg : g ∈ x.looseParts) :
    ∀ d ∈ g.body, d.isClassLike = false :=
  fun d hd => isClassLike_eq_false ((hx.loose_of_mem_looseParts hg).2 d hd)

/-- Of the groups of the stubs only those of class-likes can be told apart by their class-likes, and
these differ in their names. -/
theorem isChain_parts : (x.parts.map Group.toDecl).IsChain fun d e =>
    d.classLikeSpace? = none ∨ d.classLikeSpace? ≠ e.classLikeSpace? := by
  have hnone : ∀ g ∈ x.looseParts, g.toDecl.classLikeSpace? = none := by
    intro g hg
    exact Group.classLikeSpace?_eq_none (hx.loose_of_mem_looseParts hg).1
      (isClassLike_of_mem_looseParts hx hg)
  have hclassLikes := (Registry.separate_groups hx.consistent).isChain.imp fun g h =>
    Group.classLikeSpace?_ne (g := g) (h := h)
  apply (List.isChain_map _).2
  rw [parts, List.isChain_append]
  refine ⟨hclassLikes, ?_, ?_⟩
  · apply List.Pairwise.isChain
    apply List.pairwise_of_forall_mem_list
    intro g hg h _
    exact .inl (hnone g hg)
  · intro g _ h hh
    rw [hnone h (List.mem_of_mem_head? hh)]
    exact em _

end Extract

namespace Request

open Extract Candidate

variable {r : Request} {files : List (List Decl)}

section

variable (hfiles : ∀ ds ∈ files, Decl.fitsAll .file ds)

include hfiles

theorem isStub_of_mem_contents {p : String × Decl} (hp : p ∈ (r.extract files).contents) :
    p.2.isStub := by
  obtain ⟨c, hc, rfl⟩ := exists_kept_of_mem_contents hfiles hp
  obtain ⟨b, later, -, hstub⟩ := exists_stubOf_of_mem_keptOf hc
  exact hstub.isStub

theorem isStubBlock_of_mem_parts {g : Group} (hg : g ∈ (r.extract files).parts) :
    IsStubBlock g.body := by
  have hx := arranged_extract (r := r) hfiles
  have hstub : ∀ d ∈ g.body, d.isStub :=
    fun d hd => isStub_of_mem_contents hfiles (Arranged.mem_contents_of_mem_parts hg hd)
  rcases List.mem_append.1 hg with hg | hg
  · refine ⟨(Registry.separate_groups hx.consistent).body_ne_nil g hg, hstub, .inl ?_⟩
    intro d hd
    exact Arranged.isClassLike_of_mem_groups hx.consistent hg hd
  · exact ⟨(hx.loose_of_mem_looseParts hg).1, hstub, .inr (isClassLike_of_mem_looseParts hx hg)⟩

theorem pairwise_contents : (r.extract files).contents.Pairwise fun p q =>
    q.2.isClassLike → p.2.isClassLike := by
  have hclassLikes : ∀ p ∈ (r.extract files).classLikes.ordered.map fun e => (e.space, e.toDecl),
      p.2.isClassLike := by
    intro p hp
    obtain ⟨e, -, rfl⟩ := List.mem_map.1 hp
    rfl
  rw [contents_extract hfiles]
  refine List.pairwise_append.2 ⟨?_, ?_, ?_⟩
  · apply List.pairwise_of_forall_mem_list
    intro p hp q _ _
    exact hclassLikes p hp
  · apply List.pairwise_of_forall_mem_list
    intro p _ q hq hclass
    rw [isClassLike_eq_false (isLoose_of_mem_looseContents hq)] at hclass
    cases hclass
  · intro p hp q _ _
    exact hclassLikes p hp

theorem stubGrammar_assemble : StubGrammar (r.extract files).assemble := by
  have hx := arranged_extract (r := r) hfiles
  have hfirst : (Decl.spread (r.extract files).assemble).Pairwise fun p q =>
      q.2.isClassLike → p.2.isClassLike := by
    have hpairs := pairwise_contents (r := r) hfiles
    rw [← hx.spread_assemble] at hpairs
    exact List.pairwise_map.1 hpairs
  cases hglobal : (r.extract files).groups.all Group.isGlobal with
  | true =>
    have hstub : ∀ d ∈ (r.extract files).assemble, d.isStub := by
      intro d hd
      rw [hx.assemble_global hglobal] at hd
      have hmem : ("", d) ∈ (r.extract files).contents := by
        rw [Arranged.contents_eq_map hglobal]
        exact List.mem_map_of_mem hd
      exact isStub_of_mem_contents hfiles hmem
    have hspace : ∀ d ∈ (r.extract files).assemble, d.classLikeSpace? = none := by
      intro d hd
      have hd := hstub d hd
      cases d with
      | space name body => simp [Decl.isStub] at hd
      | _ => rfl
    refine ⟨.inr hstub, ?_, hfirst, ?_⟩
    · intro name body hd
      have hd := hstub _ hd
      simp [Decl.isStub] at hd
    · apply List.Pairwise.isChain
      apply List.pairwise_of_forall_mem_list
      intro d hd e _
      exact .inl (hspace d hd)
  | false =>
    have hassemble := (hx.reread_parts hglobal).1
    refine ⟨.inl ?_, ?_, hfirst, ?_⟩
    · intro d hd
      rw [hassemble] at hd
      obtain ⟨g, -, rfl⟩ := List.mem_map.1 hd
      rfl
    · intro name body hd
      rw [hassemble] at hd
      obtain ⟨g, hg, heq⟩ := List.mem_map.1 hd
      obtain ⟨-, rfl⟩ := Decl.space.inj heq
      exact isStubBlock_of_mem_parts hfiles hg
    · rw [hassemble]
      exact isChain_parts hx

theorem no_space_iff : (∀ d ∈ (r.extract files).assemble, d.isSpace = false) ↔
    (∀ g ∈ (r.extract files).classLikes.groups, g.isGlobal) ∧
      ∀ g ∈ (r.extract files).spaces, g.isGlobal := by
  have hx := arranged_extract (r := r) hfiles
  have hall : (r.extract files).groups.all Group.isGlobal ↔
      (∀ g ∈ (r.extract files).classLikes.groups, g.isGlobal) ∧
        ∀ g ∈ (r.extract files).spaces, g.isGlobal := by
    rw [groups, List.all_append, Bool.and_eq_true, List.all_eq_true, List.all_eq_true]
  rw [← hall]
  constructor
  · intro h
    by_contra hglobal
    simp only [Bool.not_eq_true] at hglobal
    obtain ⟨g, hg, -⟩ := List.all_eq_false.1 hglobal
    have hmem : g.toDecl ∈ (r.extract files).assemble := by
      rw [(hx.reread_parts hglobal).1, Arranged.parts_eq]
      exact List.mem_map_of_mem (List.mem_append_left _ hg)
    have hspace := h _ hmem
    cases hspace
  · intro hglobal d hd
    rcases hx.loose_or_classLike_of_global hglobal hd with h | h <;>
      cases d <;> first | rfl | cases h

end

/-- The stubs of a run follow the grammar of stubs and have the shape of a file. No namespace is
written if and only if all groups of class-likes and all namespaces that were found are global. -/
theorem grammar_extract (r : Request) (files : List (List Decl))
    (hfiles : ∀ ds ∈ files, Decl.fitsAll .file ds) (unparsed : List Unparsed) :
    let x := r.extract files
    let ds := (x.result unparsed).statements
    StubGrammar ds ∧ Decl.fitsAll .file ds ∧
      ((∀ d ∈ ds, d.isSpace = false) ↔
        (∀ g ∈ x.classLikes.groups, g.isGlobal) ∧ ∀ g ∈ x.spaces, g.isGlobal) :=
  ⟨stubGrammar_assemble hfiles, fitsAll_assemble hfiles, no_space_iff hfiles⟩

theorem grammar_mixedFiles :
    (∀ ds ∈ mixedFiles, Decl.fitsAll .file ds) ∧
      let x := ({} : Request).extract mixedFiles
      let ds := (x.result []).statements
      StubGrammar ds ∧ ds.map Decl.classLikeSpace? = [some none, none] ∧
        ¬((∀ g ∈ x.classLikes.groups, g.isGlobal) ∧ ∀ g ∈ x.spaces, g.isGlobal) := by
  have hfiles : ∀ ds ∈ mixedFiles, Decl.fitsAll .file ds := by decide
  obtain ⟨hgrammar, -, hiff⟩ := grammar_extract {} mixedFiles hfiles []
  refine ⟨hfiles, hgrammar, by decide +kernel, ?_⟩
  intro hglobal
  have hnone := hiff.2 hglobal
  revert hnone
  decide +kernel

end Request

end Stubsmith
