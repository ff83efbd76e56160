import Mathlib.Data.List.DropRight
import Stubsmith.Text.Blank

namespace Stubsmith.Text

section

variable {p : Char → Bool} {cs : List Char}

theorem stripBoth_eq : stripBoth p cs = (cs.dropWhile p).rdropWhile p :=
  rfl

/-- Nothing is left to strip of what was stripped. -/
theorem stripBoth_stripBoth (p : Char → Bool) (cs : List Char) :
    stripBoth p (stripBoth p cs) = stripBoth p cs := by
  have hfront : (stripBoth p cs).dropWhile p = stripBoth p cs := by
    rw [stripBoth_eq]
    apply List.dropWhile_eq_self_iff.2
    intro hlt hp
    have hshort := List.rdropWhile_prefix p (l := cs.dropWhile p)
    have hlt' : 0 < (cs.dropWhile p).length := Nat.lt_of_lt_of_le hlt hshort.length_le
    rw [hshort.getElem] at hp
    exact List.dropWhile_get_zero_not p cs hlt' hp
  rw [stripBoth_eq, hfront, stripBoth_eq, List.rdropWhile_idempotent]

theorem stripBoth_sublist (p : Char → Bool) (cs : List Char) : (stripBoth p cs).Sublist cs :=
  (List.rdropWhile_prefix p _).sublist.trans (List.dropWhile_sublist p)

/-- What is stripped stands around what is left. -/
theorem stripBoth_around (p : Char → Bool) (cs : List Char) :
    ∃ lead tail, cs = lead ++ stripBoth p cs ++ tail ∧ ∀ c ∈ lead ++ tail, p c := by
  refine ⟨cs.takeWhile p, (cs.dropWhile p).rtakeWhile p, ?_, ?_⟩
  · rw [stripBoth_eq, List.append_assoc, List.rdropWhile_append_rtakeWhile,
      List.takeWhile_append_dropWhile]
  · intro c hc
    rcases List.mem_append.1 hc with hc | hc
    · exact List.mem_takeWhile_imp hc
    · exact List.mem_rtakeWhile_imp hc

theorem head?_dropWhile_ne {c : Char} (cs : List Char) (hc : p c) :
    (cs.dropWhile p).head? ≠ some c := by
  intro h
  have hnot := List.head?_dropWhile_not p cs
  rw [h] at hnot
  simp [hc] at hnot

theorem head?_stripBoth_ne {c : Char} (cs : List Char) (hc : p c) :
    (stripBoth p cs).head? ≠ some c := by
  intro h
  obtain ⟨tail, htail⟩ := List.rdropWhile_prefix p (l := cs.dropWhile p)
  apply head?_dropWhile_ne cs hc
  rw [← htail, List.head?_append, ← stripBoth_eq, h]
  rfl

theorem getLast?_stripBoth_ne {c : Char} (cs : List Char) (hc : p c) :
    (stripBoth p cs).getLast? ≠ some c := by
  rw [stripBoth, List.getLast?_reverse]
  exact head?_dropWhile_ne _ hc

/-- What `p` holds of is stripped from the front. -/
theorem stripBoth_append {front : List Char} (h : ∀ c ∈ front, p c) (cs : List Char) :
    stripBoth p (front ++ cs) = stripBoth p cs := by
  rw [stripBoth_eq, List.dropWhile_append_of_pos h, stripBoth_eq]

theorem prefix_rdropWhile {lead : List Char} (hlead : ∀ c ∈ lead, p c = false)
    (h : lead <+: cs) : lead <+: cs.rdropWhile p := by
  induction cs using List.reverseRecOn with
  | nil => exact h
  | append_singleton cs c ih =>
    by_cases hc : p c
    · rw [List.rdropWhile_concat_pos p cs c hc]
      refine ih ((List.prefix_concat_iff.1 h).resolve_left ?_)
      rintro rfl
      simp [hlead c (by simp)] at hc
    · rwa [List.rdropWhile_concat_neg p cs c hc]

theorem suffix_dropWhile {tail : List Char} (htail : ∀ c ∈ tail, p c = false)
    (h : tail <:+ cs) : tail <:+ cs.dropWhile p := by
  induction cs with
  | nil => exact h
  | cons c cs ih =>
    by_cases hc : p c
    · rw [List.dropWhile_cons_of_pos hc]
      refine ih ((List.suffix_cons_iff.1 h).resolve_left ?_)
      rintro rfl
      simp [htail c (by simp)] at hc
    · rwa [List.dropWhile_cons_of_neg hc]

/-- A beginning of which nothing is to be stripped stays the beginning. -/
theorem prefix_stripBoth {lead : List Char} (hlead : ∀ c ∈ lead, p c = false) (h : lead <+: cs) :
    lead <+: stripBoth p cs := by
  rw [stripBoth_eq]
  apply prefix_rdropWhile hlead
  obtain ⟨rest, rfl⟩ := h
  cases lead with
  | nil => exact List.nil_prefix
  | cons c lead =>
    rw [List.cons_append, List.dropWhile_cons_of_neg (by simp [hlead c List.mem_cons_self])]
    exact List.prefix_append (c :: lead) rest

theorem suffix_stripBoth {tail : List Char} (htail : ∀ c ∈ tail, p c = false) (h : tail <:+ cs) :
    tail <:+ stripBoth p cs := by
  rw [stripBoth_eq]
  obtain ⟨front, hfront⟩ := suffix_dropWhile htail h
  by_cases hempty : tail = []
  · rw [hempty]
    exact List.nil_suffix
  · have hstays : (front ++ tail).rdropWhile p = front ++ tail := by
      rw [List.rdropWhile_eq_self_iff]
      intro hne
      rw [List.getLast_append_of_ne_nil hne hempty, htail _ (List.getLast_mem hempty)]
      exact Bool.false_ne_true
    rw [← hfront, hstays]
    exact List.suffix_append front tail

end

section

variable {c : Char} {cs : List Char}

theorem splitOn_eq (c : Char) (cs : List Char) : splitOn c cs = cs.splitOn c := by
  induction cs with
  | nil => rfl
  | cons d cs ih =>
    rw [splitOn, List.splitOn_cons_eq_if_modifyHead, ih]
    by_cases h : d = c
    · simp [h]
    · rw [if_neg h, if_neg (by simpa using h)]
      cases hs : cs.splitOn c with
      | nil => exact absurd hs (List.splitOn_ne_nil c cs)
      | cons piece pieces => rfl

theorem notMem_splitOn {c : Char} {cs piece : List Char} (h : piece ∈ splitOn c cs) :
    c ∉ piece := by
  induction cs generalizing piece with
  | nil => simp_all [splitOn]
  | cons d cs ih =>
    rw [splitOn] at h
    split at h
    · rcases List.mem_cons.mp h with rfl | h
      · simp
      · exact ih h
    · next hd =>
      split at h
      · cases List.mem_singleton.mp h
        simp [Ne.symm hd]
      · next first more hs =>
        rcases List.mem_cons.mp h with rfl | h
        · have hf := ih (hs ▸ List.mem_cons_self)
          simp [Ne.symm hd, hf]
        · exact ih (hs ▸ List.mem_cons_of_mem _ h)

theorem splitOn_append_cons (front back : List Char) :
    (front ++ c :: back).splitOn c = front.splitOn c ++ back.splitOn c := by
  simp only [List.splitOn_eq_splitOnP]
  exact List.splitOnP_append_cons _ _ (by simp)

/-- A piece with the character behind it comes first. -/
theorem splitOn_piece {piece : List Char} (h : c ∉ piece) (rest : List Char) :
    (piece ++ c :: rest).splitOn c = piece :: rest.splitOn c := by
  rw [splitOn_append_cons, List.splitOn_eq_singleton h, List.singleton_append]

/-- What a text starts with is what its first piece starts with. -/
theorem splitOn_of_prefix {lead : List Char} (hlead : c ∉ lead) (h : lead <+: cs) :
    ∃ first rest, cs.splitOn c = first :: rest ∧ lead <+: first := by
  obtain ⟨back, rfl⟩ := h
  induction lead with
  | nil =>
    obtain ⟨first, rest, hsplit⟩ := List.exists_cons_of_ne_nil (List.splitOn_ne_nil c back)
    exact ⟨first, rest, hsplit, List.nil_prefix⟩
  | cons d lead ih =>
    obtain ⟨hd, hlead⟩ := List.ne_and_not_mem_of_not_mem_cons hlead
    obtain ⟨first, rest, hsplit, hfirst⟩ := ih hlead
    refine ⟨d :: first, rest, ?_, List.cons_prefix_cons.2 ⟨rfl, hfirst⟩⟩
    rw [List.cons_append, List.splitOn_cons_eq_if_modifyHead, if_neg (by simpa using Ne.symm hd),
      hsplit, List.modifyHead_cons]

/-- What a text ends with is what its last piece ends with. -/
theorem splitOn_of_suffix {tail : List Char} (htail : c ∉ tail) (h : tail <:+ cs) :
    ∃ front last, cs.splitOn c = front ++ [last] ∧ tail <:+ last := by
  obtain ⟨lead, rfl⟩ := h
  induction lead with
  | nil => exact ⟨[], tail, List.splitOn_eq_singleton htail, List.suffix_refl tail⟩
  | cons d lead ih =>
    obtain ⟨front, last, hsplit, hlast⟩ := ih
    rw [List.cons_append, List.splitOn_cons_eq_if_modifyHead, hsplit]
    split
    · exact ⟨[] :: front, last, rfl, hlast⟩
    · cases front with
      | nil => exact ⟨[], d :: last, rfl, hlast.trans (List.suffix_cons d last)⟩
      | cons piece front => exact ⟨(d :: piece) :: front, last, rfl, hlast⟩

end

/-- A text without line feeds. -/
def OneLine (s : String) : Prop :=
  '\n' ∉ s.toList

instance : DecidablePred OneLine := fun _ => inferInstanceAs (Decidable (_ ∉ _))

section

variable {piece last : List Char} {pieces : List (List Char)}

theorem endLine_sublist (line : List Char) : (endLine line).Sublist line := by
  rw [endLine]
  split
  · exact List.dropLast_sublist line
  · exact List.Sublist.refl line

theorem endLine_eq_self {line : List Char} (h : line.getLast? ≠ some '\r') :
    endLine line = line := by
  rw [endLine]
  split
  · contradiction
  · rfl

/-- A carriage return that is cut off is not among the first characters that are to stay. -/
theorem prefix_endLine {lead line : List Char} (hlead : '\r' ∉ lead) (h : lead <+: line) :
    lead <+: endLine line := by
  rw [endLine]
  split
  · next hreturn =>
    obtain ⟨rest, rfl⟩ := h
    cases rest using List.reverseRecOn with
    | nil =>
      rw [List.append_nil] at hreturn
      exact absurd (List.mem_of_getLast? hreturn) hlead
    | append_singleton rest c =>
      rw [← List.append_assoc, List.dropLast_concat]
      exact List.prefix_append lead rest
  · exact h

theorem linesFrom_concat (hlast : last ≠ []) :
    linesFrom (pieces ++ [last]) = pieces.map endLine ++ [last] := by
  have hnonempty : last.isEmpty = false := by simpa using hlast
  induction pieces with
  | nil => simp [linesFrom, hnonempty]
  | cons piece pieces ih =>
    have hrest : pieces ++ [last] ≠ [] := List.concat_ne_nil last pieces
    rw [List.cons_append, linesFrom]
    · rw [ih, List.map_cons, List.cons_append]
    · exact fun h => absurd h hrest

theorem mem_linesFrom {line : List Char} (h : line ∈ linesFrom pieces) :
    ∃ piece ∈ pieces, line.Sublist piece := by
  induction pieces with
  | nil => cases h
  | cons piece pieces ih =>
    cases pieces with
    | nil =>
      rw [linesFrom] at h
      split at h
      · cases h
      · exact ⟨piece, List.mem_cons_self, List.mem_singleton.1 h ▸ List.Sublist.refl line⟩
    | cons next pieces =>
      rw [linesFrom] at h
      · obtain rfl | h := List.mem_cons.1 h
        · exact ⟨piece, List.mem_cons_self, endLine_sublist piece⟩
        · obtain ⟨other, hother, hsub⟩ := ih h
          exact ⟨other, List.mem_cons_of_mem piece hother, hsub⟩
      · exact fun h => nomatch h

end

/-- No line has a line feed in it. -/
theorem oneLine_of_mem_lines {s line : String} (h : line ∈ lines s) : OneLine line := by
  obtain ⟨cs, hcs, rfl⟩ := List.mem_map.1 h
  obtain ⟨piece, hpiece, hsub⟩ := mem_linesFrom hcs
  rw [OneLine, String.toList_ofList]
  exact fun hfeed => notMem_splitOn hpiece (hsub.subset hfeed)

/-- Lines that end with no carriage return, the last of which is not empty, are the lines of the
text that is put together from them. -/
theorem lines_intercalate {ls : List String} {last : String} (hne : last ≠ "")
    (hlines : ∀ l ∈ ls ++ [last], OneLine l)
    (hends : ∀ l ∈ ls, l.toList.getLast? ≠ some '\r') :
    lines (String.intercalate "\n" (ls ++ [last])) = ls ++ [last] := by
  have hpieces : splitOn '\n' (String.intercalate "\n" (ls ++ [last])).toList =
      ls.map String.toList ++ [last.toList] := by
    have hfeeds : ∀ l ∈ (ls ++ [last]).map String.toList, '\n' ∉ l := List.forall_mem_map.2 hlines
    rw [splitOn_eq, String.toList_intercalate, show "\n".toList = ['\n'] from rfl,
      List.splitOn_intercalate '\n' hfeeds (by simp), List.map_append, List.map_singleton]
  have hkept : (ls.map String.toList).map endLine = ls.map String.toList := by
    rw [List.map_map]
    exact List.map_congr_left fun l hl => endLine_eq_self (hends l hl)
  rw [lines, hpieces, linesFrom_concat (by simpa using hne), hkept, List.map_append, List.map_map]
  simp

/-- Lines that end with no carriage return are the lines of the text in which a line feed ends each
of them. -/
theorem lines_join {ls : List String} (hlines : ∀ l ∈ ls, OneLine l)
    (hends : ∀ l ∈ ls, l.toList.getLast? ≠ some '\r') :
    lines (String.join (ls.map (· ++ "\n"))) = ls := by
  induction ls with
  | nil => rfl
  | cons l ls ih =>
    obtain ⟨hl, hls⟩ := List.forall_mem_cons.1 hlines
    obtain ⟨hend, hends⟩ := List.forall_mem_cons.1 hends
    have hcut : splitOn '\n' (String.join ((l :: ls).map (· ++ "\n"))).toList =
        l.toList :: splitOn '\n' (String.join (ls.map (· ++ "\n"))).toList := by
      rw [splitOn_eq, splitOn_eq, ← splitOn_piece hl]
      simp
    have hrest : linesFrom (splitOn '\n' (String.join ((l :: ls).map (· ++ "\n"))).toList) =
        l.toList :: linesFrom (splitOn '\n' (String.join (ls.map (· ++ "\n"))).toList) := by
      rw [hcut, linesFrom, endLine_eq_self hend]
      rw [splitOn_eq]
      exact List.splitOn_ne_nil '\n' _
    rw [lines, hrest, List.map_cons, String.ofList_toList]
    exact congrArg (l :: ·) (ih hls hends)

end Stubsmith.Text
