import Stubsmith.Proofs.PathLookup
import Stubsmith.Proofs.TextEdges

namespace Stubsmith

namespace Path

open FileSystem (isEnd)

theorem notMem_piece {path piece : String} (h : piece ∈ pieces path) : '/' ∉ piece.toList := by
  obtain ⟨cs, hcs, rfl⟩ := List.mem_map.mp h
  rw [String.toList_ofList]
  exact Text.notMem_splitOn hcs

/-- The first piece of a relative path has something in it, but where nothing is in the path. -/
theorem eq_empty_of_pieces {path : String} {rest : List String} (ha : isAbsolute path = false)
    (h : pieces path = "" :: rest) : path = "" := by
  cases hcs : path.toList with
  | nil => exact String.toList_eq_nil_iff.mp hcs
  | cons d cs =>
    have hd : d ≠ '/' := by
      intro hd
      simp [isAbsolute, hcs, hd] at ha
    simp only [pieces, ha, hcs, Bool.false_eq_true, if_false, Text.splitOn, if_neg hd] at h
    split at h <;> simp at h

/-- What is put together from pieces has them again. -/
theorem splitOn_intercalate {ps : List String} (hne : ps ≠ []) (hp : ∀ p ∈ ps, '/' ∉ p.toList) :
    (Text.splitOn '/' (String.intercalate "/" ps).toList).map String.ofList = ps := by
  rw [Text.splitOn_eq, String.toList_intercalate]
  have hsplit : (['/'].intercalate (ps.map String.toList)).splitOn '/' = ps.map String.toList :=
    List.splitOn_intercalate '/' (by simpa using hp) (by simpa using hne)
  rw [show "/".toList = ['/'] from rfl, hsplit, List.map_map]
  simp

theorem isAbsolute_intercalate {p : String} (ps : List String) (hp : '/' ∉ p.toList)
    (hne : p ≠ "") : isAbsolute (String.intercalate "/" (p :: ps)) = false := by
  obtain ⟨c, cs, hcs⟩ : ∃ c cs, p.toList = c :: cs :=
    List.exists_cons_of_ne_nil fun h => hne (String.toList_eq_nil_iff.mp h)
  have hc : c ≠ '/' := by
    intro hc
    simp [hcs, hc] at hp
  cases ps <;> simp [isAbsolute, String.toList_intercalate, hcs, hc]

theorem trimPieces_suffix (absolute : Bool) (ps : List String) :
    ∃ dropped, ps = dropped ++ trimPieces absolute ps := by
  induction ps with
  | nil => exact ⟨[], rfl⟩
  | cons piece rest ih =>
    obtain ⟨dropped, hd⟩ := ih
    rw [trimPieces]
    split
    · exact ⟨piece :: dropped, by rw [List.cons_append, ← hd]⟩
    · exact ⟨[], rfl⟩

theorem head_trimPieces {absolute : Bool} {ps rest : List String} {piece : String}
    (h : trimPieces absolute ps = piece :: rest) : piece ≠ "" := by
  induction ps with
  | nil => cases h
  | cons first more ih =>
    rw [trimPieces] at h
    split at h
    · exact ih h
    · next hf =>
      cases h
      simp_all

/-- The pieces of a path are those that its parent is put together from and more, which are not
only slashes. -/
theorem parent?_eq_some {path parent : String} (h : parent? path = some parent) :
    ∃ front behind, pieces path = front ++ behind ∧ isEnd behind = false ∧
      parent =
        if isAbsolute path then "/" ++ String.intercalate "/" front
        else String.intercalate "/" front := by
  simp only [parent?] at h
  split at h
  · cases h
  · next last rest htrim =>
    obtain ⟨dropped, hd⟩ := trimPieces_suffix (isAbsolute path) (pieces path).reverse
    obtain ⟨dropped', hd'⟩ := trimPieces_suffix (isAbsolute path) rest
    refine ⟨(trimPieces (isAbsolute path) rest).reverse,
      dropped'.reverse ++ last :: dropped.reverse, ?_, ?_, (Option.some.inj h).symm⟩
    · have hrest : rest.reverse =
          (trimPieces (isAbsolute path) rest).reverse ++ dropped'.reverse := by
        rw [← List.reverse_append, ← hd']
      rw [htrim] at hd
      rw [← List.reverse_reverse (pieces path), hd, List.reverse_append, List.reverse_cons, hrest]
      simp
    · have hlast : (last == "") = false := beq_false_of_ne (head_trimPieces htrim)
      simp [isEnd, hlast]

theorem pieces_absolute {front : List String} (hf : ∀ p ∈ front, '/' ∉ p.toList) :
    isAbsolute ("/" ++ String.intercalate "/" front) = true ∧
      (pieces ("/" ++ String.intercalate "/" front) = front ∨
        front = [] ∧ pieces ("/" ++ String.intercalate "/" front) = [""]) := by
  have ha : isAbsolute ("/" ++ String.intercalate "/" front) = true := by simp [isAbsolute]
  refine ⟨ha, ?_⟩
  cases front with
  | nil => exact .inr ⟨rfl, rfl⟩
  | cons p ps =>
    refine .inl ?_
    rw [pieces, ha, if_pos rfl, String.toList_append]
    exact splitOn_intercalate (by simp) hf

theorem pieces_relative {p : String} {ps : List String} (hp : p ≠ "")
    (hf : ∀ q ∈ p :: ps, '/' ∉ q.toList) :
    isAbsolute (String.intercalate "/" (p :: ps)) = false ∧
      pieces (String.intercalate "/" (p :: ps)) = p :: ps := by
  have ha := isAbsolute_intercalate ps (hf p List.mem_cons_self) hp
  refine ⟨ha, ?_⟩
  rw [pieces, ha]
  exact splitOn_intercalate (by simp) hf

/-- A path goes on behind the pieces of its parent, which are its first ones. Where it has none of
them, the parent is the root. -/
theorem pieces_parent {path parent : String} (h : parent? path = some parent)
    (hne : parent ≠ "") :
    isAbsolute parent = isAbsolute path ∧ ∃ front behind, pieces path = front ++ behind ∧
      isEnd behind = false ∧ (pieces parent = front ∨ front = [] ∧ pieces parent = [""]) := by
  obtain ⟨front, behind, hpieces, hbehind, hparent⟩ := parent?_eq_some h
  have hslash : ∀ p ∈ front, '/' ∉ p.toList := fun p hp =>
    notMem_piece (hpieces ▸ List.mem_append_left _ hp)
  cases ha : isAbsolute path with
  | true =>
    rw [ha, if_pos rfl] at hparent
    obtain ⟨hpa, hpp⟩ := pieces_absolute hslash
    rw [← hparent] at hpa hpp
    exact ⟨hpa, front, behind, hpieces, hbehind, hpp⟩
  | false =>
    rw [ha, if_neg Bool.false_ne_true] at hparent
    cases front with
    | nil => exact absurd hparent hne
    | cons p ps =>
      have hp : p ≠ "" := by
        rintro rfl
        -- The path would be empty, and so have one piece, which is only an end.
        cases eq_empty_of_pieces ha hpieces
        have hlength := congrArg List.length hpieces
        obtain ⟨rfl, rfl⟩ : ps = [] ∧ behind = [] := by
          simpa [pieces, isAbsolute, Text.splitOn] using hlength
        cases hbehind
      obtain ⟨hpa, hpp⟩ := pieces_relative hp hslash
      rw [← hparent] at hpa hpp
      exact ⟨hpa, p :: ps, behind, hpieces, hbehind, .inl hpp⟩

theorem mem_pieces_parent {path parent piece : String} (h : parent? path = some parent)
    (hm : piece ∈ pieces parent) : piece = "" ∨ piece ∈ pieces path := by
  by_cases hne : parent = ""
  · subst hne
    exact .inl (List.mem_singleton.mp hm)
  · obtain ⟨-, front, behind, hpieces, -, hfront⟩ := pieces_parent h hne
    rcases hfront with hfront | ⟨-, hroot⟩
    · rw [hfront] at hm
      exact .inr (hpieces ▸ List.mem_append_left _ hm)
    · rw [hroot] at hm
      exact .inl (List.mem_singleton.mp hm)

end Path

end Stubsmith
