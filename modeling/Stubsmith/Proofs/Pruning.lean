import Mathlib.Data.List.Basic
import Stubsmith.Proofs.FlatWalk

namespace Stubsmith

/-- What is left of groups when only some of each declaration is left, given its namespace. Groups
in which nothing is left are gone. -/
def Group.prune (left? : String → Decl → Option Decl) (gs : List Group) : List Group :=
  (gs.map fun g => ⟨g.space, g.body.filterMap (left? g.space)⟩).filter (!·.body.isEmpty)

theorem Group.prune_append (left? : String → Decl → Option Decl) (gs hs : List Group) :
    prune left? (gs ++ hs) = prune left? gs ++ prune left? hs := by
  rw [prune, List.map_append, List.filter_append]
  rfl

def Candidate.prune? (left? : String → Decl → Option Decl) (c : Candidate) : Option Candidate :=
  (left? c.space c.decl).map fun d => { c with decl := d }

/-- Judging a stub twice, as new to the other run and as what stays of that. -/
theorem stub_eq_bind {stub : Decl} {new wholeNew stays : Bool} {left? : Decl → Option Decl}
    (hnew : new = (stays && wholeNew)) (hleft : left? stub = if stays then some stub else none) :
    (if new then some stub else none) = (if wholeNew then some stub else none).bind left? := by
  cases wholeNew <;> cases stays <;> simp [hnew, hleft]

/-- A run that counts the symbols which another counts and for which `p` holds, and keeps what is
left of what the other keeps when both have counted the same of these symbols. -/
structure Request.Prunes (r whole : Request) (p : SymbolKey → Bool)
    (left? : String → Decl → Option Decl) : Prop where
  counted : ∀ c, r.counted c = (whole.counted c).filter p
  stub? : ∀ seen c, r.stub? (seen.filter p) c = (whole.stub? seen c).bind (left? c.space)
  isClassLike : ∀ space d e, left? space d = some e → e.isClassLike = d.isClassLike

namespace Request.Prunes

open Candidate

variable {r whole : Request} {p : SymbolKey → Bool} {left? : String → Decl → Option Decl}

section

variable (h : r.Prunes whole p left?)

include h

theorem flatMap_counted (cs : List Candidate) :
    cs.flatMap r.counted = (cs.flatMap whole.counted).filter p := by
  rw [List.filter_flatMap]
  exact List.flatMap_congr fun c _ => h.counted c

theorem keptFrom_eq (seen : List SymbolKey) (cs : List Candidate) :
    r.keptFrom (seen.filter p) cs = (whole.keptFrom seen cs).filterMap (Candidate.prune? left?) := by
  induction cs generalizing seen with
  | nil => rfl
  | cons c cs ih =>
    have hkept : r.kept? (seen.filter p) c =
        (whole.kept? seen c).bind (Candidate.prune? left?) := by
      rw [kept?, kept?, h.stub?]
      cases whole.stub? seen c <;> rfl
    have hlater : seen.filter p ++ r.counted c = (seen ++ whole.counted c).filter p := by
      rw [h.counted, List.filter_append]
    rw [keptFrom, keptFrom, hkept, hlater, ih, List.filterMap_append]
    cases whole.kept? seen c with
    | none => rfl
    | some d => cases hd : Candidate.prune? left? d <;> simp [hd]

/-- What stays at a place is what is left of it. -/
theorem placedIn_filterMap (site : Option (Nat × String)) (kept : List Candidate) :
    placedIn site (kept.filterMap (Candidate.prune? left?)) =
      (placedIn site kept).filterMap (left? ((site.map Prod.snd).getD "")) := by
  induction kept with
  | nil => rfl
  | cons c kept ih =>
    have hcons : placedIn site (c :: kept) = placedIn site [c] ++ placedIn site kept := by
      rw [← placedIn_append, List.singleton_append]
    have hfirst : placedIn site (Candidate.prune? left? c).toList =
        (placedIn site [c]).filterMap (left? ((site.map Prod.snd).getD "")) := by
      by_cases hplace : c.place = site
      · have hspace : c.space = (site.map Prod.snd).getD "" := by rw [← hplace]; rfl
        rw [← hspace]
        cases hleft : left? c.space c.decl with
        | none => cases hclass : c.decl.isClassLike <;>
            simp [placedIn, Candidate.prune?, hleft, hplace, hclass]
        | some e =>
          have hclass := h.isClassLike _ _ _ hleft
          cases hd : c.decl.isClassLike <;>
            simp [placedIn, Candidate.prune?, hleft, hplace, hclass, hd]
      · cases hleft : left? c.space c.decl <;>
          simp [placedIn, Candidate.prune?, hleft, hplace]
    rw [hcons, List.filterMap_append, ← ih, ← hfirst, ← placedIn_append, List.filterMap_cons]
    cases Candidate.prune? left? c <;> rfl

theorem spacesFrom_filterMap (n : Nat) (kept : List Candidate) (ds : List Decl) :
    spacesFrom n (kept.filterMap (Candidate.prune? left?)) ds =
      Group.prune left? (spacesFrom n kept ds) := by
  induction ds generalizing n with
  | nil => rfl
  | cons d ds ih =>
    cases d with
    | space name body =>
      rw [spacesFrom, spacesFrom, h.placedIn_filterMap, ih, Group.prune_append]
      congr 1
      generalize placedIn (some (n, name.getD "")) kept = ds
      cases hleft : ds.filterMap (left? (name.getD "")) <;> cases ds <;>
        simp_all [Group.prune]
    | _ => exact ih (n + 1)

end

/-- What a run finds is what is left of what the other run finds. -/
theorem extract_eq (h : r.Prunes whole p left?) {files : List (List Decl)}
    (hfiles : ∀ ds ∈ files, Decl.fitsAll .file ds) :
    (r.extract files).spaces = Group.prune left? (whole.extract files).spaces ∧
      (r.extract files).statements = (whole.extract files).statements.filterMap (left? "") ∧
      (r.extract files).tally.counts = (whole.extract files).tally.counts.filter fun e => p e.1 := by
  obtain ⟨hxspaces, hx⟩ := follows_extract (r := r) hfiles
  obtain ⟨hyspaces, hy⟩ := follows_extract (r := whole) hfiles
  have hkept := h.keptFrom_eq [] (Decl.candidatesFrom 0 files.flatten)
  rw [List.filter_nil] at hkept
  rw [hkept] at hxspaces hx
  refine ⟨?_, ?_, ?_⟩
  · rw [hxspaces, hyspaces, h.spacesFrom_filterMap]
  · rw [hx.statements, hy.statements, h.placedIn_filterMap]
    rfl
  · rw [hx.tally.counts, hy.tally.counts, h.flatMap_counted, SymbolKey.countTable_filter]

end Request.Prunes

end Stubsmith
