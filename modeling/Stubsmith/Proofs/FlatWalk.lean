import Stubsmith.Proofs.ControlState
import Stubsmith.Proofs.WalkSteps

namespace Stubsmith

namespace Candidate

/-- What stays in place of candidates that were kept: nothing at the top level. -/
def staying (site : Option (Nat × String)) (kept : List Candidate) : List Decl :=
  if site.isSome then placedIn site kept else []

/-- What a run has found apart from its namespaces, when `seen` were counted and `kept` were kept.
-/
structure Follows (x : Extract) (seen : List SymbolKey) (kept : List Candidate) : Prop where
  tally : x.tally.Records seen (kept.flatMap symbols)
  statements : x.statements = placedIn none kept
  expressions : x.expressions = []
  classLikes : x.classLikes = Registry.insertAll {} (kept.filterMap descriptor?)

/-- What was counted and kept, and the namespaces, are all that a run has found. -/
theorem Follows.unique {x y : Extract} {seen : List SymbolKey} {kept : List Candidate}
    (hx : Follows x seen kept) (hy : Follows y seen kept) (hspaces : x.spaces = y.spaces) :
    x = y := by
  have htally : x.tally = y.tally := hx.tally.unique hy.tally
  have hstatements : x.statements = y.statements := hx.statements.trans hy.statements.symm
  have hexpressions : x.expressions = y.expressions := hx.expressions.trans hy.expressions.symm
  have hclassLikes : x.classLikes = y.classLikes := hx.classLikes.trans hy.classLikes.symm
  cases x
  cases y
  exact (Extract.mk.injEq ..).mpr ⟨hspaces, hstatements, hexpressions, hclassLikes, htally⟩

variable {site : Option (Nat × String)} {kept kept' : List Candidate}

theorem placedIn_append :
    placedIn site (kept ++ kept') = placedIn site kept ++ placedIn site kept' := by
  simp [placedIn]

theorem staying_append : staying site (kept ++ kept') = staying site kept ++ staying site kept' := by
  cases site <;> simp [staying, placedIn_append]

theorem insertAll_append (r : Registry) (ds es : List Descriptor) :
    r.insertAll (ds ++ es) = (r.insertAll ds).insertAll es := by
  simp [Registry.insertAll]

end Candidate

namespace Request

open Candidate

variable {r : Request}

theorem keptFrom_append (seen : List SymbolKey) (cs ds : List Candidate) :
    r.keptFrom seen (cs ++ ds) =
      r.keptFrom seen cs ++ r.keptFrom (seen ++ cs.flatMap r.counted) ds := by
  induction cs generalizing seen with
  | nil => simp [keptFrom]
  | cons c cs ih => simp [keptFrom, ih]

/-- A part of a walk that has gone from `s` to `out` has judged just the candidates `cs`, which
stand in one place, and has left the namespaces and the flags of `s` as they were. -/
def Handles (r : Request) (site : Option (Nat × String)) (cs : List Candidate) (s : ExtractState)
    (out : List Decl × ExtractState) : Prop :=
  ∀ seen kept, Follows s.found seen kept → ∃ x,
    out = (staying site (r.keptFrom seen cs), { s with found := x }) ∧
      x.spaces = s.found.spaces ∧
      Follows x (seen ++ cs.flatMap r.counted) (kept ++ r.keptFrom seen cs)

variable {site : Option (Nat × String)} {s : ExtractState}

theorem Handles.nil : r.Handles site [] s ([], s) := by
  intro seen kept h
  exact ⟨s.found, by cases site <;> simp [keptFrom, staying, placedIn], rfl,
    by simpa [keptFrom] using h⟩

theorem Handles.append {cs ds : List Candidate} {out : List Decl × ExtractState}
    {next : ExtractState → List Decl × ExtractState} (h : r.Handles site cs s out)
    (k : ∀ x, r.Handles site ds { s with found := x } (next { s with found := x })) :
    r.Handles site (cs ++ ds) s (out.1 ++ (next out.2).1, (next out.2).2) := by
  intro seen kept hf
  obtain ⟨x, rfl, hspaces, hx⟩ := h seen kept hf
  obtain ⟨y, hnext, hspaces', hy⟩ := k x _ _ hx
  refine ⟨y, ?_, hspaces'.trans hspaces, ?_⟩
  · simp only [hnext, keptFrom_append, staying_append]
  · simpa [keptFrom_append] using hy

theorem settle_eq {parent : Option Frame} {space : Option String}
    (hns : ∀ name body, d ≠ .space name body) (hparent : parent = space.map .space)
    (hin : s.inDeclaration = false) : r.settle parent d s = r.settleCandidate space d s := by
  obtain ⟨frames, found, inDeclaration, inGuard⟩ := s
  obtain rfl : inDeclaration = false := hin
  subst hparent
  cases d with
  | space name body => exact absurd rfl (hns name body)
  | _ => cases space <;> rfl

theorem visited_ne_space {guarded : Bool} (hns : ∀ name body, d ≠ .space name body) :
    ∀ name body, r.visited guarded d ≠ .space name body := by
  intro name body h
  cases d with
  | space n b => exact hns n b rfl
  | classLike head b => cases hsel : r.selection.hasClassKind head.kind <;> simp [visited, hsel] at h
  | _ => simp [visited] at h

theorem place_of_not_classLike {space : String} {inSpace : Bool} {x : Extract}
    (hd : d.isClassLike = false) (hs : d.isStatement) :
    Request.place space inSpace d x =
      if inSpace then ([d], x) else ([], { x with statements := x.statements ++ [d] }) := by
  cases d with
  | classLike h body => simp [Decl.isClassLike] at hd
  | _ => simp [Request.place, hs]

/-- Where a stub goes, what was found stays in step with the pass. -/
theorem follows_place {x : Extract} {seen : List SymbolKey} {kept : List Candidate} {c : Candidate}
    {stub : Decl} {t : Tally} (hf : Follows x seen kept) (hstub : StubOf r seen c stub)
    (ht : t.Records (seen ++ r.counted c) ((kept ++ [{ c with decl := stub }]).flatMap symbols)) :
    ∃ y, Request.place c.space c.place.isSome stub { x with tally := t } =
        (staying c.place [{ c with decl := stub }], y) ∧
      y.spaces = x.spaces ∧
      Follows y (seen ++ r.counted c) (kept ++ [{ c with decl := stub }]) := by
  by_cases hclass : stub.isClassLike
  · cases hstub with
    | @classLike h body name decl named new =>
      let d := Descriptor.ofClassLike c.space ⟨h, r.stubBody h body⟩
      refine ⟨{ x with tally := t, classLikes := x.classLikes.insert d }, ?_, rfl, ht, ?_,
        hf.expressions, ?_⟩
      · simp [Request.place, named, staying, placedIn, Decl.isClassLike, d]
      · simpa [placedIn, Decl.isClassLike] using hf.statements
      · rw [List.filterMap_append, insertAll_append, ← hf.classLikes]
        rfl
    | _ => simp [Decl.isClassLike] at hclass
  · have hclass : stub.isClassLike = false := by simpa using hclass
    have hdescriptors : (kept ++ [{ c with decl := stub }]).filterMap descriptor? =
        kept.filterMap descriptor? := by
      cases stub with
      | classLike h body => simp [Decl.isClassLike] at hclass
      | _ => simp [descriptor?]
    rw [place_of_not_classLike hclass hstub.isStatement]
    cases hc : c.place with
    | none =>
      refine ⟨{ x with tally := t, statements := x.statements ++ [stub] }, by simp [staying], rfl,
        hc ▸ ht, ?_, hf.expressions, ?_⟩
      · simp [hf.statements, placedIn, hclass]
      · rw [← hc, hdescriptors]
        exact hf.classLikes
    | some site =>
      refine ⟨{ x with tally := t }, by simp [staying, placedIn, hclass], rfl, hc ▸ ht, ?_,
        hf.expressions, ?_⟩
      · simp [hf.statements, placedIn]
      · rw [← hc, hdescriptors]
        exact hf.classLikes

/-- What is judged stays, or moves to the class-likes or to the statements. -/
theorem handles_settle {c : Candidate} (hns : ∀ name body, c.decl ≠ .space name body)
    (hin : s.inDeclaration = false) (hguard : s.inGuard = c.guarded) :
    r.Handles c.place [c] s
      (r.settle (c.place.map fun p => .space p.2) (r.visited c.guarded c.decl) s) := by
  intro seen kept hf
  obtain ⟨t, hkeep, ht⟩ := keep?_visited (r := r) c hf.tally
  have hparent : (c.place.map fun p => Frame.space p.2) = (c.place.map Prod.snd).map .space := by
    cases c.place <;> rfl
  rw [settle_eq (visited_ne_space hns) hparent hin, settleCandidate, hguard]
  rw [show (Option.map Prod.snd c.place).getD "" = c.space from rfl, hkeep]
  cases hstub : r.stub? seen c with
  | none =>
    refine ⟨{ s.found with tally := t }, ?_, rfl, ?_⟩
    · simp [keptFrom, kept?, hstub, staying, placedIn]
    · simpa [keptFrom, kept?, hstub] using
        (⟨by simpa [kept?, hstub] using ht, hf.statements, hf.expressions, hf.classLikes⟩ :
          Follows { s.found with tally := t } (seen ++ r.counted c) kept)
  | some stub =>
    have ht' : t.Records (seen ++ r.counted c)
        ((kept ++ [{ c with decl := stub }]).flatMap symbols) := by
      simpa [kept?, hstub] using ht
    obtain ⟨y, hplace, hspaces, hy⟩ := follows_place hf (stub?_eq_some_iff.1 hstub) ht'
    refine ⟨y, ?_, hspaces, ?_⟩
    · simp only [Option.isSome_map, hplace, keptFrom, kept?, hstub]
      rfl
    · simpa [keptFrom, kept?, hstub] using hy

theorem ne_space_of_fits {d : Decl} (hd : d.fits .statement) :
    ∀ name body, d ≠ .space name body := by
  rintro name body rfl
  simp [Decl.fits] at hd

theorem handles_settleAll (site : Option (Nat × String)) {ds : List Decl}
    (hds : Decl.fitsAll .statement ds) (hin : s.inDeclaration = false) (hguard : s.inGuard = true) :
    r.Handles site (ds.map fun d => ⟨site, true, d⟩) s
      (r.settleAll (site.map fun p => .space p.2) (ds.map (r.visited true)) s) := by
  induction ds generalizing s with
  | nil => exact .nil
  | cons d ds ih =>
    simp only [Decl.fitsAll, Bool.and_eq_true] at hds
    have first : r.Handles site [⟨site, true, d⟩] s
        (r.settle (site.map fun p => .space p.2) (r.visited true d) s) :=
      handles_settle (c := ⟨site, true, d⟩) (ne_space_of_fits hds.1) hin hguard
    exact first.append fun x => ih hds.2 hin hguard

/-- The frames around the statements of a namespace, or those of the top level. -/
def framesAt (site : Option (Nat × String)) : List Frame :=
  (site.map fun p => .space p.2).toList

theorem handles_statement (site : Option (Nat × String)) (hd : d.fits .statement)
    (hs : s.frames = framesAt site) (hin : s.inDeclaration = false) (hguard : s.inGuard = false) :
    r.Handles site (d.opened site) s (r.visitor.walk d s) := by
  have hhead : s.frames.head? = site.map fun p => .space p.2 := by
    rw [hs]
    cases site <;> rfl
  have hall : s.frames.all Frame.isSpace = true := by
    rw [hs]
    cases site <;> rfl
  have unguarded (hne : ∀ c body, d ≠ .guarded c body) :
      r.Handles site [⟨site, false, d⟩] s (r.visitor.walk d s) := by
    rw [walk_statement hd hin (.inr hne), hhead, hall]
    exact handles_settle (c := ⟨site, false, d⟩) (ne_space_of_fits hd) hin hguard
  cases d with
  | guarded condition body =>
    simp only [Decl.fits, Bool.and_eq_true] at hd
    intro seen kept hf
    obtain ⟨x, hout, hspaces, hx⟩ := handles_settleAll (r := r) site
      (s := { s with inGuard := true }) hd.2 hin rfl seen kept hf
    refine ⟨x, ?_, hspaces, hx⟩
    rw [walk_guard hd.2 hin hguard, hhead, hout]
    simp [Decl.opened, hguard]
  | _ => exact unguarded (by simp)

theorem handles_statements (site : Option (Nat × String)) {ds : List Decl}
    (hds : Decl.fitsAll .statement ds) (hs : s.frames = framesAt site)
    (hin : s.inDeclaration = false) (hguard : s.inGuard = false) :
    r.Handles site (ds.flatMap (Decl.opened site)) s (r.visitor.walkAll ds s) := by
  induction ds generalizing s with
  | nil => exact .nil
  | cons d ds ih =>
    simp only [Decl.fitsAll, Bool.and_eq_true] at hds
    exact (handles_statement site hds.1 hs hin hguard).append fun x => ih hds.2 hs hin hguard

end Request

namespace Candidate

open Request

variable {r : Request} {n m : Nat} {c : Candidate} {d : Decl} {ds : List Decl}
  {kept later : List Candidate} {space : String}

theorem place_of_mem_opened {site : Option (Nat × String)} (h : c ∈ d.opened site) :
    c.place = site := by
  cases d with
  | guarded condition body =>
    obtain ⟨d, -, rfl⟩ := List.mem_map.1 h
    rfl
  | _ =>
    obtain rfl := List.mem_singleton.1 h
    rfl

theorem candidates_eq_opened (hns : ∀ name body, d ≠ .space name body) :
    d.candidates n = d.opened none := by
  cases d with
  | space name body => exact absurd rfl (hns name body)
  | _ => rfl

theorem place_of_mem_candidates (h : c ∈ d.candidates n) : c.place = d.site n := by
  cases d with
  | space name body =>
    obtain ⟨d, -, hd⟩ := List.mem_flatMap.1 h
    exact place_of_mem_opened hd
  | _ =>
    rw [candidates_eq_opened (by simp)] at h
    exact place_of_mem_opened h

theorem block_of_site (h : d.site n = some (m, space)) : m = n := by
  cases d with
  | space name body =>
    simp only [Decl.site, Option.some.injEq, Prod.mk.injEq] at h
    exact h.1.symm
  | _ => simp [Decl.site] at h

theorem block_of_mem_candidatesFrom (h : c ∈ Decl.candidatesFrom n ds)
    (hc : c.place = some (m, space)) : n ≤ m := by
  induction ds generalizing n with
  | nil => simp [Decl.candidatesFrom] at h
  | cons d ds ih =>
    rcases List.mem_append.1 h with h | h
    · exact Nat.le_of_eq (block_of_site ((place_of_mem_candidates h).symm.trans hc)).symm
    · exact Nat.le_of_succ_le (ih h)

theorem placedIn_eq_nil {site : Option (Nat × String)} (h : ∀ c ∈ kept, c.place ≠ site) :
    placedIn site kept = [] := by
  simp only [placedIn, List.map_eq_nil_iff, List.filter_eq_nil_iff]
  intro c hc
  simp [h c hc]

theorem spacesFrom_append_right (later : List Candidate) (ds : List Decl)
    (h : ∀ c ∈ kept, ∀ m space, c.place = some (m, space) → m < n) :
    spacesFrom n (kept ++ later) ds = spacesFrom n later ds := by
  induction ds generalizing n with
  | nil => rfl
  | cons d ds ih =>
    have hnext := ih (n := n + 1) fun c hc m space hp => Nat.lt_succ_of_lt (h c hc m space hp)
    cases d with
    | space name body =>
      have hnil : placedIn (some (n, name.getD "")) kept = [] :=
        placedIn_eq_nil fun c hc hp => Nat.lt_irrefl n (h c hc n _ hp)
      simp [spacesFrom, placedIn_append, hnil, hnext]
    | _ => exact hnext

/-- What is kept in one declaration of the top level stays apart from what is kept in those behind
it. -/
theorem spacesFrom_cons (hkept : ∀ c ∈ kept, c.place = d.site n)
    (hlater : ∀ c ∈ later, ∀ m space, c.place = some (m, space) → n < m) :
    spacesFrom n (kept ++ later) (d :: ds) =
      spacesFrom n kept [d] ++ spacesFrom (n + 1) later ds := by
  have hrest := spacesFrom_append_right (n := n + 1) later ds
    fun c hc m space hp => Nat.lt_succ_of_le (Nat.le_of_eq (block_of_site (hkept c hc ▸ hp)))
  cases d with
  | space name body =>
    have hnil : placedIn (some (n, name.getD "")) later = [] :=
      placedIn_eq_nil fun c hc hp => Nat.lt_irrefl n (hlater c hc n _ hp)
    simp [spacesFrom, placedIn_append, hnil, hrest]
  | _ => exact hrest

theorem place_of_mem_keptFrom {seen : List SymbolKey} (h : c ∈ r.keptFrom seen (d.candidates n)) :
    c.place = d.site n := by
  obtain ⟨b, hb, -, hplace, -⟩ := exists_stubOf_of_mem_keptFrom h
  rw [hplace, place_of_mem_candidates hb]

theorem lt_block_of_mem_keptFrom {seen : List SymbolKey}
    (h : c ∈ r.keptFrom seen (Decl.candidatesFrom (n + 1) ds)) (hc : c.place = some (m, space)) :
    n < m := by
  obtain ⟨b, hb, -, hplace, -⟩ := exists_stubOf_of_mem_keptFrom h
  exact block_of_mem_candidatesFrom hb (hplace ▸ hc)

end Candidate

namespace Request

open Candidate

variable {r : Request} {s : ExtractState} {d : Decl} {ds : List Decl} {seen : List SymbolKey}
  {kept : List Candidate}

/-- A part of the top level that goes from `s` to `out`, of declarations that are numbered from `n`
on: nothing is left over, and the candidates in it are judged. -/
def HandlesTop (r : Request) (n : Nat) (ds : List Decl) (s : ExtractState)
    (out : List Decl × ExtractState) : Prop :=
  ∀ seen kept, Follows s.found seen kept → ∃ x,
    out = ([], { s with found := x }) ∧
      x.spaces = s.found.spaces ++ spacesFrom n (r.keptFrom seen (Decl.candidatesFrom n ds)) ds ∧
      Follows x (seen ++ (Decl.candidatesFrom n ds).flatMap r.counted)
        (kept ++ r.keptFrom seen (Decl.candidatesFrom n ds))

theorem handlesTop_statement {n : Nat} (hd : d.fits .statement) (hs : s.frames = [])
    (hin : s.inDeclaration = false) (hguard : s.inGuard = false) :
    r.HandlesTop n [d] s (r.visitor.walk d s) := by
  have hcandidates : Decl.candidatesFrom n [d] = d.opened none := by
    simp [Decl.candidatesFrom, candidates_eq_opened (ne_space_of_fits hd)]
  have hspaces (kept : List Candidate) : spacesFrom n kept [d] = [] := by
    cases d with
    | space name body => simp [Decl.fits] at hd
    | _ => rfl
  intro seen kept hf
  obtain ⟨x, hout, hx, hfx⟩ :=
    handles_statement (r := r) none hd hs hin hguard seen kept hf
  refine ⟨x, by simpa [staying] using hout, ?_, ?_⟩
  · rw [hx, hspaces, List.append_nil]
  · rwa [hcandidates]

/-- A namespace is kept with what stays in it, unless that is nothing. -/
theorem handlesTop_space {n : Nat} {name : Option String} {body : List Decl}
    (hb : Decl.fitsAll .statement body) (hs : s.frames = []) (hin : s.inDeclaration = false)
    (hguard : s.inGuard = false) :
    r.HandlesTop n [.space name body] s (r.visitor.walk (.space name body) s) := by
  obtain ⟨frames, found, inDeclaration, inGuard⟩ := s
  obtain rfl : frames = [] := hs
  obtain rfl : inDeclaration = false := hin
  obtain rfl : inGuard = false := hguard
  intro seen kept hf
  let site := some (n, name.getD "")
  obtain ⟨x, hout, hx, hfx⟩ := handles_statements (r := r) site
    (s := ⟨framesAt site, found, false, false⟩) hb rfl rfl rfl seen kept hf
  have hcandidates : Decl.candidatesFrom n [.space name body] = body.flatMap (Decl.opened site) := by
    simp [Decl.candidatesFrom, Decl.candidates, site]
  rw [hcandidates]
  have hwalk : r.visitor.walk (.space name body) ⟨[], found, false, false⟩ =
      r.leave (.space name (placedIn site (r.keptFrom seen (body.flatMap (Decl.opened site)))))
        ⟨framesAt site, x, false, false⟩ := by
    rw [Visitor.walk]
    change r.leave (.space name (r.visitor.walkAll body ⟨framesAt site, found, false, false⟩).1)
      (r.visitor.walkAll body ⟨framesAt site, found, false, false⟩).2 = _
    rw [hout]
    rfl
  rw [hwalk]
  simp only [spacesFrom]
  cases hleft : placedIn site (r.keptFrom seen (body.flatMap (Decl.opened site))) with
  | nil => exact ⟨x, rfl, by simpa [site] using hx, hfx⟩
  | cons e es =>
    refine ⟨{ x with spaces := x.spaces ++ [⟨name.getD "", e :: es⟩] }, rfl, ?_,
      ⟨hfx.tally, hfx.statements, hfx.expressions, hfx.classLikes⟩⟩
    simp [hx]

/-- What is judged in one part of the top level stays apart from what is judged in another. -/
theorem HandlesTop.cons {n : Nat} {out : List Decl × ExtractState}
    (next : ExtractState → List Decl × ExtractState) (h : r.HandlesTop n [d] s out)
    (k : ∀ x, r.HandlesTop (n + 1) ds { s with found := x } (next { s with found := x })) :
    r.HandlesTop n (d :: ds) s (out.1 ++ (next out.2).1, (next out.2).2) := by
  intro seen kept hf
  have hcandidates : Decl.candidatesFrom n [d] = d.candidates n := by simp [Decl.candidatesFrom]
  obtain ⟨x, rfl, hspaces, hx⟩ := h seen kept hf
  rw [hcandidates] at hspaces hx
  obtain ⟨y, hnext, hspaces', hy⟩ := k x _ _ hx
  let first := r.keptFrom seen (d.candidates n)
  let later := r.keptFrom (seen ++ (d.candidates n).flatMap r.counted)
    (Decl.candidatesFrom (n + 1) ds)
  have hkept : r.keptFrom seen (Decl.candidatesFrom n (d :: ds)) = first ++ later := by
    rw [Decl.candidatesFrom, keptFrom_append]
  refine ⟨y, by simp [hnext], ?_, ?_⟩
  · rw [hspaces', hspaces, hkept, List.append_assoc, spacesFrom_cons]
    · intro c hc
      exact place_of_mem_keptFrom hc
    · intro c hc m space hplace
      exact lt_block_of_mem_keptFrom hc hplace
  · rw [hkept]
    simpa [Decl.candidatesFrom, first, later] using hy

/-- A walk over a file leaves nothing over. -/
theorem handlesTop_walkAll {n : Nat} (hds : Decl.fitsAll .file ds) (hs : s.frames = [])
    (hin : s.inDeclaration = false) (hguard : s.inGuard = false) :
    r.HandlesTop n ds s (r.visitor.walkAll ds s) := by
  induction ds generalizing n s with
  | nil =>
    intro seen kept hf
    exact ⟨s.found, rfl, by simp [spacesFrom], by simpa [Decl.candidatesFrom, keptFrom] using hf⟩
  | cons d ds ih =>
    simp only [Decl.fitsAll, Bool.and_eq_true] at hds
    refine HandlesTop.cons (r.visitor.walkAll ds) ?_ fun x => ih hds.2 hs hin hguard
    rcases Decl.fits_file_iff.1 hds.1 with ⟨name, body, rfl, hb⟩ | hd
    · exact handlesTop_space hb hs hin hguard
    · exact handlesTop_statement hd hs hin hguard

/-- What a run finds is what the pass over the candidates of its files keeps. -/
theorem follows_extract {files : List (List Decl)} (hfiles : ∀ ds ∈ files, Decl.fitsAll .file ds) :
    let candidates := Decl.candidatesFrom 0 files.flatten
    let kept := r.keptFrom [] candidates
    (r.extract files).spaces = spacesFrom 0 kept files.flatten ∧
      Follows (r.extract files) (candidates.flatMap r.counted) kept := by
  have start : Follows (default : ExtractState).found [] [] :=
    ⟨Tally.records_empty, rfl, rfl, rfl⟩
  have hwalk := foldl_visitFile (r := r) (s := {}) files rfl
  obtain ⟨x, hout, hspaces, hx⟩ := handlesTop_walkAll (r := r) (n := 0) (s := {})
    (Decl.fitsAll_flatten hfiles) rfl rfl rfl [] [] start
  have hfound : r.extract files = x := by rw [extract, hwalk, hout]
  rw [hfound]
  exact ⟨by simpa using hspaces, by simpa using hx⟩

/-- A run over files that have the shape of files finds what the flat pass over their candidates
finds: the counts, the symbols that are kept, the namespaces, the statements and the class-likes. -/
theorem extract_eq_flatPass (r : Request) (files : List (List Decl))
    (hfiles : ∀ ds ∈ files, Decl.fitsAll .file ds) :
    let x := r.extract files
    let pass := r.flatPass files
    x.tally.counts = pass.counts ∧ x.tally.retained = pass.retained ∧ x.spaces = pass.spaces ∧
      x.statements = pass.statements ∧ x.expressions = [] ∧ x.classLikes = pass.classLikes := by
  intro x pass
  obtain ⟨hspaces, h⟩ := follows_extract (r := r) hfiles
  exact ⟨h.tally.counts, h.tally.retained, hspaces, h.statements, h.expressions, h.classLikes⟩

/-- Two files in which every kind of symbol stands: in a namespace, behind a guard, behind two
guards and at the top level, and some of them more than once. -/
def mixedFiles : List (List Decl) :=
  [[.space (some "N")
      [.guarded "!f()" [.function { name := "f" } [], .assign ⟨none, .plain "g", "1"⟩,
        .guarded "c" [.function { name := "deep" } []]],
      .function { name := "f" } [.verbatim "return 1;" true],
      .assign ⟨some "/** kept */", .globalsEntry "g" "'g'", "2"⟩,
      .const { items := [⟨"X", "1"⟩, ⟨"X", "2"⟩] }]],
    [.classLike { kind := .classType, name := some "C" }
      [.method { name := "m" } (some [.verbatim "exit;" true])],
    .define { name := some "N\\X", args := ["NAME", "3"] },
    .assign ⟨none, .plain "h", "4"⟩,
    .classLike { kind := .enumType, name := some "C" } []]]

theorem extract_mixedFiles :
    (∀ ds ∈ mixedFiles, Decl.fitsAll .file ds) ∧
      let x := ({} : Request).extract mixedFiles
      x.tally.counts =
          [(⟨.functions, "\\N\\f"⟩, 2), (⟨.classes, "\\C"⟩, 1), (⟨.enums, "\\C"⟩, 1),
            (⟨.constants, "\\N\\X"⟩, 3), (⟨.globals, "g"⟩, 1), (⟨.globals, "h"⟩, 1)] ∧
        x.tally.retained =
          [⟨.functions, "\\N\\f"⟩, ⟨.classes, "\\C"⟩, ⟨.enums, "\\C"⟩, ⟨.constants, "\\N\\X"⟩,
            ⟨.globals, "g"⟩] ∧
        x.spaces.map (fun g => (g.space, g.body.length)) = [("N", 3)] ∧
        x.statements.length = 0 ∧
        x.classLikes.descriptors.map Descriptor.fullName = ["\\C"] := by
  have hfiles : ∀ ds ∈ mixedFiles, Decl.fitsAll .file ds := by decide
  obtain ⟨hcounts, hretained, hspaces, hstatements, -, hclassLikes⟩ :=
    extract_eq_flatPass {} mixedFiles hfiles
  refine ⟨hfiles, ?_⟩
  simp only [hcounts, hretained, hspaces, hstatements, hclassLikes]
  decide +kernel

end Request

end Stubsmith
