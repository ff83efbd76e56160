import Mathlib.Data.List.Forall2
import Stubsmith.Proofs.Idempotence
import Stubsmith.Stubs.Result

namespace Stubsmith

open Request

namespace Decl

/-- `d.Respelled e`: some entries of the table of globals in `d`, at whatever depth, are written in
`e` as the variables that they are. -/
inductive Respelled : Decl → Decl → Prop where
  | same (d : Decl) : Respelled d d
  | entry {doc : Option String} {key : String} {literal value : Fragment}
      (identifier : isIdentifier key) :
      Respelled (.assign ⟨doc, .globalsEntry key literal, value⟩) (.assign ⟨doc, .plain key, value⟩)
  | space {name : Option String} {body body' : List Decl}
      (inside : List.Forall₂ Respelled body body') :
      Respelled (.space name body) (.space name body')
  | function {head : FunctionHead} {body body' : List Decl}
      (inside : List.Forall₂ Respelled body body') :
      Respelled (.function head body) (.function head body')
  | classLike {head : ClassHead} {body body' : List Decl}
      (inside : List.Forall₂ Respelled body body') :
      Respelled (.classLike head body) (.classLike head body')
  | method {head : MethodHead} {body body' : List Decl}
      (inside : List.Forall₂ Respelled body body') :
      Respelled (.method head (some body)) (.method head (some body'))
  | guarded {condition : Fragment} {body body' : List Decl}
      (inside : List.Forall₂ Respelled body body') :
      Respelled (.guarded condition body) (.guarded condition body')

variable {d e : Decl} {ds es : List Decl} {l : Level}

theorem fitsAll_respelled_of (h : List.Forall₂ Respelled ds es)
    (hfits : ∀ d ∈ ds, ∀ e, d.Respelled e → e.fits l = d.fits l) :
    fitsAll l es = fitsAll l ds := by
  induction h with
  | nil => rfl
  | cons hd _ ih =>
    obtain ⟨hhead, htail⟩ := List.forall_mem_cons.1 hfits
    rw [fitsAll, fitsAll, hhead _ hd, ih htail]

/-- A declaration may stand in the same places in either spelling. -/
theorem Respelled.fits_eq (h : d.Respelled e) (l : Level) : e.fits l = d.fits l := by
  induction d using induct_children generalizing e l with
  | step d ih =>
    cases h with
    | same | entry => rfl
    | space h | function h | classLike h | method h | guarded h =>
      have hinside (l : Level) := fitsAll_respelled_of (l := l) h fun c hc _ he => ih _ rfl c hc he l
      simp only [fits, hinside]

theorem fitsAll_respelled (h : List.Forall₂ Respelled ds es) : fitsAll l es = fitsAll l ds :=
  fitsAll_respelled_of h fun _ _ _ he => he.fits_eq l

/-- No assignment stands directly in a class-like, and the bodies in it are not shown. -/
theorem Respelled.stubMember_eq (h : d.Respelled e) (hd : d.fits .member) :
    stubMember e = stubMember d := by
  cases h with
  | same => rfl
  | method => rfl
  | entry | space | function | classLike | guarded => simp [fits] at hd

end Decl

namespace Candidate

open Decl

/-- Two candidates in one place, the second a respelling of the first. -/
inductive Respelled : Candidate → Candidate → Prop where
  | decl {place : Option (Nat × String)} {guarded : Bool} {d e : Decl} (h : d.Respelled e) :
      Respelled ⟨place, guarded, d⟩ ⟨place, guarded, e⟩

variable {r : Request} {c c' : Candidate} {cs cs' : List Candidate} {d e : Decl}
  {ds es : List Decl} {seen : List SymbolKey}

theorem forall₂_opened (place : Option (Nat × String)) (h : d.Respelled e) :
    List.Forall₂ Respelled (d.opened place) (e.opened place) := by
  have unguarded {d e : Decl} (h : d.Respelled e) :
      List.Forall₂ Respelled [⟨place, false, d⟩] [⟨place, false, e⟩] :=
    .cons (.decl h) .nil
  have respelled := h
  cases h with
  | same =>
    rw [List.forall₂_same]
    exact fun c _ => .decl (.same c.decl)
  | guarded h => exact List.rel_map (fun _ _ h => .decl h) h
  | entry | space | function | classLike | method => exact unguarded respelled

theorem forall₂_candidates (n : Nat) (h : d.Respelled e) :
    List.Forall₂ Respelled (d.candidates n) (e.candidates n) := by
  have respelled := h
  cases h with
  | same =>
    rw [List.forall₂_same]
    exact fun c _ => .decl (.same c.decl)
  | space h => exact List.rel_flatMap h fun _ _ h => forall₂_opened _ h
  | entry | function | classLike | method | guarded => exact forall₂_opened none respelled

theorem forall₂_candidatesFrom (n : Nat) (h : List.Forall₂ Decl.Respelled ds es) :
    List.Forall₂ Respelled (Decl.candidatesFrom n ds) (Decl.candidatesFrom n es) := by
  induction h generalizing n with
  | nil => exact .nil
  | cons hd _ ih => exact List.rel_append (forall₂_candidates n hd) (ih (n + 1))

theorem spacesFrom_respelled (n : Nat) (kept : List Candidate)
    (h : List.Forall₂ Decl.Respelled ds es) : spacesFrom n kept es = spacesFrom n kept ds := by
  induction h generalizing n with
  | nil => rfl
  | @cons d e ds es hd _ ih =>
    cases hd with
    | same => cases d <;> simp only [spacesFrom, ih]
    | space => simp only [spacesFrom, ih]
    | entry | function | classLike | method | guarded => exact ih (n + 1)

/-- An entry whose key could name a variable stands for the global of that name. -/
theorem symbols_respelled (h : c.Respelled c') : c'.symbols = c.symbols := by
  obtain @⟨place, guarded, d, e, hd⟩ := h
  cases hd with
  | entry hkey => simp [symbols, plainTarget, hkey]
  | same | space | function | classLike | method | guarded => rfl

end Candidate

namespace Request

open Candidate

variable {r : Request} {c c' : Candidate} {cs cs' : List Candidate} {seen : List SymbolKey}
  {ds es : List Decl}

theorem stubBody_eq_filter (h : ClassHead) (body : List Decl) :
    r.stubBody h body = (body.map stubMember).filter fun d =>
      r.options.keepInaccessible || !isInaccessible h.kind h.isExtensible d := by
  simp only [stubBody, List.filter_map, Function.comp_def, isInaccessible_stubMember]

theorem stubBody_respelled (h : ClassHead) (hrespelled : List.Forall₂ Decl.Respelled ds es)
    (hds : Decl.fitsAll .member ds) : r.stubBody h es = r.stubBody h ds := by
  have hmembers : es.map stubMember = ds.map stubMember := by
    induction hrespelled with
    | nil => rfl
    | cons hd _ ih =>
      simp only [Decl.fitsAll, Bool.and_eq_true] at hds
      rw [List.map_cons, List.map_cons, hd.stubMember_eq hds.1, ih hds.2]
  rw [stubBody_eq_filter, stubBody_eq_filter, hmembers]

theorem stub?_respelled (h : c.Respelled c') (hc : c.decl.fits .statement) :
    r.stub? seen c' = r.stub? seen c := by
  obtain @⟨place, guarded, d, e, hd⟩ := h
  cases hd with
  | entry hkey => simp [stub?, plainTarget, hkey]
  | @classLike head _ _ h =>
    simp only [Decl.fits, Bool.and_eq_true] at hc
    simp only [stub?, stubBody_respelled head h hc.2]
    rfl
  | same | space | function | method | guarded => rfl

/-- The same candidates are kept, as the same stubs. -/
theorem keptFrom_respelled (h : List.Forall₂ Candidate.Respelled cs cs')
    (hcs : ∀ c ∈ cs, c.decl.fits .statement) : r.keptFrom seen cs' = r.keptFrom seen cs := by
  induction h generalizing seen with
  | nil => rfl
  | @cons c c' cs cs' hc _ ih =>
    obtain ⟨hfits, hrest⟩ := List.forall_mem_cons.1 hcs
    have hkept : r.kept? seen c' = r.kept? seen c := by
      rw [kept?, kept?, stub?_respelled hc hfits]
      -- The stub takes the place of the declaration, so that the spelling is gone.
      obtain ⟨hd⟩ := hc
      rfl
    have hcounted : r.counted c' = r.counted c := by
      rw [counted, counted, symbols_respelled hc]
    rw [keptFrom, keptFrom, hkept, hcounted, ih hrest]

theorem flatMap_counted_respelled (h : List.Forall₂ Candidate.Respelled cs cs') :
    cs'.flatMap r.counted = cs.flatMap r.counted := by
  induction h with
  | nil => rfl
  | cons hc _ ih =>
    rw [List.flatMap_cons, List.flatMap_cons, counted, counted, symbols_respelled hc, ih]

section Files

variable {files files' : List (List Decl)}

theorem fitsAll_files_respelled (hfiles : ∀ ds ∈ files, Decl.fitsAll .file ds)
    (h : List.Forall₂ (List.Forall₂ Decl.Respelled) files files') :
    ∀ ds ∈ files', Decl.fitsAll .file ds := by
  induction h with
  | nil => exact hfiles
  | cons hds _ ih =>
    obtain ⟨hfile, hrest⟩ := List.forall_mem_cons.1 hfiles
    exact List.forall_mem_cons.2 ⟨(Decl.fitsAll_respelled hds).trans hfile, ih hrest⟩

/-- A run finds the same in files of either spelling. -/
theorem extract_eq_of_respelled (hfiles : ∀ ds ∈ files, Decl.fitsAll .file ds)
    (h : List.Forall₂ (List.Forall₂ Decl.Respelled) files files') :
    r.extract files' = r.extract files := by
  have hflat : List.Forall₂ Decl.Respelled files.flatten files'.flatten := List.rel_flatten h
  have hfiles' : ∀ ds ∈ files', Decl.fitsAll .file ds := fitsAll_files_respelled hfiles h
  have hcandidates := forall₂_candidatesFrom 0 hflat
  have hkept : r.keptFrom [] (Decl.candidatesFrom 0 files'.flatten) =
      r.keptFrom [] (Decl.candidatesFrom 0 files.flatten) :=
    keptFrom_respelled hcandidates fun _ => fits_candidatesFrom (Decl.fitsAll_flatten hfiles)
  obtain ⟨hspaces, hx⟩ := follows_extract (r := r) hfiles
  obtain ⟨hspaces', hx'⟩ := follows_extract (r := r) hfiles'
  rw [hkept, spacesFrom_respelled 0 _ hflat] at hspaces'
  rw [hkept, flatMap_counted_respelled hcandidates] at hx'
  exact hx'.unique hx (hspaces'.trans hspaces.symm)

end Files

/-- The stubs, the statistics and the duplicates of a run do not depend on which entries of the
table of globals are written as the variables that they are, wherever these entries stand. -/
theorem extract_respelled (r : Request) (files files' : List (List Decl))
    (hfiles : ∀ ds ∈ files, Decl.fitsAll .file ds)
    (hrespelled : List.Forall₂ (List.Forall₂ Decl.Respelled) files files')
    (unparsed : List Unparsed) :
    let stubs := (r.extract files).result unparsed
    let stubs' := (r.extract files').result unparsed
    stubs'.statements = stubs.statements ∧ stubs'.stats = stubs.stats ∧
      stubs'.duplicates = stubs.duplicates := by
  intro stubs stubs'
  have hstubs : stubs' = stubs := by
    simp only [stubs, stubs', extract_eq_of_respelled hfiles hrespelled]
  rw [hstubs]
  exact ⟨rfl, rfl, rfl⟩

/-- The entry under a key that is written in single quotes. -/
def quotedEntry (key : String) : AssignTarget :=
  .globalsEntry key ("'" ++ key ++ "'")

/-- Globals in a namespace, behind a guard in it, in a function and at the top level. Two are
entries of the table of globals, one of them under a key that no variable could have; how the others
are written is left open. -/
def entryFiles (written : String → AssignTarget) : List (List Decl) :=
  [[.space (some "N")
      [.assign ⟨some "/** @var int */", written "a", "1"⟩,
        .guarded "f()" [.assign ⟨none, written "b", "2"⟩],
        .function { name := "f" } [.assign ⟨none, written "a", "3"⟩]],
    .assign ⟨none, quotedEntry "a", "4"⟩],
  [.assign ⟨none, written "c", "5"⟩, .assign ⟨none, quotedEntry "c d", "6"⟩]]

theorem extract_respelled_entryFiles :
    let files := entryFiles quotedEntry
    let files' := entryFiles .plain
    (∀ ds ∈ files, Decl.fitsAll .file ds) ∧
      List.Forall₂ (List.Forall₂ Decl.Respelled) files files' ∧
      let stubs := (({} : Request).extract files).result []
      let stubs' := (({} : Request).extract files').result []
      stubs'.statements = stubs.statements ∧ stubs'.stats = stubs.stats ∧
        stubs'.duplicates = stubs.duplicates ∧ stubs'.duplicates = [⟨.globals, "a", 2⟩] := by
  intro files files'
  have hfiles : ∀ ds ∈ files, Decl.fitsAll .file ds := by decide
  have hrespelled : List.Forall₂ (List.Forall₂ Decl.Respelled) files files' := by
    have alone {d e : Decl} (h : d.Respelled e) : List.Forall₂ Decl.Respelled [d] [e] :=
      .cons h .nil
    refine .cons (.cons (.space ?_) (alone (.same _)))
      (.cons (.cons (.entry rfl) (alone (.same _))) .nil)
    exact .cons (.entry rfl) (.cons (.guarded (alone (.entry rfl)))
      (alone (.function (alone (.entry rfl)))))
  refine ⟨hfiles, hrespelled, ?_⟩
  intro stubs stubs'
  obtain ⟨hstatements, hstats, hduplicates⟩ := extract_respelled {} _ _ hfiles hrespelled []
  exact ⟨hstatements, hstats, hduplicates, by decide +kernel⟩

end Request

end Stubsmith
