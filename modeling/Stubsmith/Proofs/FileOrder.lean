import Stubsmith.Proofs.Retained
import Stubsmith.Proofs.Statistics

namespace Stubsmith

namespace Candidate

/-- A candidate without the number of its namespace, which is all that depends on other files. -/
def unnumbered (c : Candidate) : Candidate :=
  { c with place := c.place.map fun p => (0, p.2) }

theorem space_unnumbered (c : Candidate) : c.unnumbered.space = c.space := by
  rw [space, unnumbered, Option.map_map]
  rfl

theorem symbols_unnumbered (c : Candidate) : c.unnumbered.symbols = c.symbols := by
  simp only [symbols, space_unnumbered]
  rfl

theorem map_unnumbered_opened (n : Nat) (name : String) (d : Decl) :
    (d.opened (some (n, name))).map unnumbered = d.opened (some (0, name)) := by
  cases d with
  | guarded condition body => exact List.map_map
  | _ => rfl

theorem map_unnumbered_candidates (n : Nat) (d : Decl) :
    (d.candidates n).map unnumbered = d.candidates 0 := by
  cases d with
  | space name body =>
    rw [Decl.candidates, List.map_flatMap]
    exact List.flatMap_congr fun d _ => map_unnumbered_opened n _ d
  | guarded condition body => exact List.map_map
  | _ => rfl

theorem map_unnumbered_candidatesFrom (n : Nat) (ds : List Decl) :
    (Decl.candidatesFrom n ds).map unnumbered = ds.flatMap (Decl.candidates 0) := by
  induction ds generalizing n with
  | nil => rfl
  | cons d ds ih =>
    rw [Decl.candidatesFrom, List.map_append, map_unnumbered_candidates, ih, List.flatMap_cons]

/-- The files' candidates are the same in every order, numbers apart. -/
theorem unnumbered_perm {files files' : List (List Decl)} (h : files.Perm files') :
    ((Decl.candidatesFrom 0 files.flatten).map unnumbered).Perm
      ((Decl.candidatesFrom 0 files'.flatten).map unnumbered) := by
  rw [map_unnumbered_candidatesFrom, map_unnumbered_candidatesFrom]
  exact h.flatten.flatMap_right _

end Candidate

namespace Request

open Candidate

variable {r : Request} {files files' : List (List Decl)}

theorem flatMap_counted_unnumbered (cs : List Candidate) :
    (cs.map unnumbered).flatMap r.counted = cs.flatMap r.counted := by
  rw [List.flatMap_map]
  apply List.flatMap_congr
  intro c _
  rw [counted, counted, symbols_unnumbered]

/-- Whether a symbol is kept of candidates does not depend on their numbers. -/
theorem exists_unnumbered_iff {key : SymbolKey} (cs : List Candidate) :
    (∃ c ∈ cs.map unnumbered, key ∈ c.symbols ∧ r.keeps [] c key) ↔
      ∃ c ∈ cs, key ∈ c.symbols ∧ r.keeps [] c key := by
  have hkeeps (c : Candidate) : r.keeps [] c.unnumbered key = r.keeps [] c key := rfl
  simp only [List.mem_map, exists_exists_and_eq_and, symbols_unnumbered, hkeeps]

section

variable (hperm : files.Perm files') (hfiles : ∀ ds ∈ files, Decl.fitsAll .file ds)

include hperm hfiles

theorem fitsAll_of_perm : ∀ ds ∈ files', Decl.fitsAll .file ds := by
  intro ds hds
  exact hfiles ds (hperm.mem_iff.2 hds)

theorem counts_of_perm : (r.extract files).tally.counts = (r.extract files').tally.counts := by
  have hfiles' := fitsAll_of_perm hperm hfiles
  rw [(follows_extract hfiles).2.tally.counts, (follows_extract hfiles').2.tally.counts]
  apply SymbolKey.countTable_perm
  calc
    ((Decl.candidatesFrom 0 files.flatten).flatMap r.counted).Perm
        (((Decl.candidatesFrom 0 files.flatten).map unnumbered).flatMap r.counted) := by
      rw [flatMap_counted_unnumbered]
    List.Perm _ (((Decl.candidatesFrom 0 files'.flatten).map unnumbered).flatMap r.counted) :=
      (unnumbered_perm hperm).flatMap_right _
    List.Perm _ ((Decl.candidatesFrom 0 files'.flatten).flatMap r.counted) := by
      rw [flatMap_counted_unnumbered]

/-- Which symbols are kept does not depend on the order of the files. -/
theorem retained_of_perm :
    (r.extract files).tally.retained = (r.extract files').tally.retained := by
  have hfiles' := fitsAll_of_perm hperm hfiles
  apply SymbolKey.eq_of_mem_iff (Tally.retained_sorted _) (Tally.retained_sorted _)
  intro key
  rw [mem_retained_extract hfiles, mem_retained_extract hfiles', ← exists_unnumbered_iff,
    ← exists_unnumbered_iff (Decl.candidatesFrom 0 files'.flatten)]
  apply exists_congr
  intro c
  rw [(unnumbered_perm hperm).mem_iff]

/-- What the stubs of one order declare is declared by those of any other order, if perhaps by a
class-like of another kind. -/
theorem mem_inFamily_of_perm {key : SymbolKey}
    (h : key ∈ (Decl.declaredAll (r.extract files).assemble).map SymbolKey.inFamily) :
    key ∈ (Decl.declaredAll (r.extract files').assemble).map SymbolKey.inFamily := by
  have hfiles' := fitsAll_of_perm hperm hfiles
  obtain ⟨d, hd, rfl⟩ := List.mem_map.1 h
  have hretained := mem_retained_of_mem_declaredAll hfiles hd
  rw [retained_of_perm hperm hfiles] at hretained
  obtain ⟨e, he, hfamily⟩ := exists_mem_declaredAll_of_mem_retained hfiles' hretained
  exact List.mem_map.2 ⟨e, he, hfamily⟩

end

/-- The counts, the statistics and the duplicates of a run do not depend on the order of the files,
and neither does the set of names that the stubs declare. -/
theorem extract_perm (r : Request) (files files' : List (List Decl)) (hperm : files.Perm files')
    (hfiles : ∀ ds ∈ files, Decl.fitsAll .file ds) (unparsed : List Unparsed) :
    let stubs := (r.extract files).result unparsed
    let stubs' := (r.extract files').result unparsed
    (r.extract files).tally.counts = (r.extract files').tally.counts ∧
      stubs.stats = stubs'.stats ∧ stubs.duplicates = stubs'.duplicates ∧
      ∀ key, key ∈ (Decl.declaredAll stubs.statements).map SymbolKey.inFamily ↔
        key ∈ (Decl.declaredAll stubs'.statements).map SymbolKey.inFamily := by
  intro stubs stubs'
  have hcounts := counts_of_perm (r := r) hperm hfiles
  have hretained := retained_of_perm (r := r) hperm hfiles
  refine ⟨hcounts, ?_, ?_, ?_⟩
  · change Tally.stats _ = Tally.stats _
    simp only [Tally.stats, Tally.retainedCount, hretained]
  · change Tally.duplicates _ = Tally.duplicates _
    simp only [Tally.duplicates, hcounts]
  · intro key
    constructor
    · exact mem_inFamily_of_perm hperm hfiles
    · exact mem_inFamily_of_perm hperm.symm (fitsAll_of_perm hperm hfiles)

/-- Of a class and an interface of one name the one in the later file is written, but the reports of
both orders are the same. -/
theorem extract_perm_namesakeFiles :
    namesakeFiles.Perm namesakeFiles.reverse ∧
      (∀ ds ∈ namesakeFiles, Decl.fitsAll .file ds) ∧
      let stubs := (({} : Request).extract namesakeFiles).result []
      let stubs' := (({} : Request).extract namesakeFiles.reverse).result []
      Decl.declaredAll stubs.statements = [⟨.interfaces, "\\C"⟩] ∧
        Decl.declaredAll stubs'.statements = [⟨.classes, "\\C"⟩] ∧
        stubs.stats = stubs'.stats ∧ stubs.duplicates = stubs'.duplicates := by
  have hperm : namesakeFiles.Perm namesakeFiles.reverse := namesakeFiles.reverse_perm.symm
  have hfiles : ∀ ds ∈ namesakeFiles, Decl.fitsAll .file ds := by decide
  refine ⟨hperm, hfiles, ?_⟩
  intro stubs stubs'
  obtain ⟨-, hstats, hduplicates, -⟩ := extract_perm {} _ _ hperm hfiles []
  exact ⟨by decide +kernel, by decide +kernel, hstats, hduplicates⟩

end Request

end Stubsmith
