import Stubsmith.Proofs.Positions
import Stubsmith.Proofs.Rendering
import Stubsmith.Syntax.Fault

namespace Stubsmith

namespace Text

/-- A word with nothing but blanks before it, and a blank or nothing behind it. -/
structure IsFirstWord (s word : String) : Prop where
  nonempty : word ≠ ""
  solid : ∀ c ∈ word.toList, isBlank c = false
  placed : ∃ gap rest : List Char, s.toList = gap ++ word.toList ++ rest ∧
    (∀ c ∈ gap, isBlank c) ∧ ∀ c ∈ rest.head?, isBlank c

variable {s word : String}

theorem isFirstWord_of_firstWord? (h : firstWord? s = some word) : IsFirstWord s word := by
  obtain ⟨hne, rfl⟩ : (s.toList.dropWhile isBlank).takeWhile (!isBlank ·) ≠ [] ∧
      String.ofList ((s.toList.dropWhile isBlank).takeWhile (!isBlank ·)) = word := by
    rw [firstWord?] at h
    split at h
    · cases h
    · next hrun => exact ⟨hrun, Option.some.inj h⟩
  refine ⟨?_, ?_, s.toList.takeWhile isBlank,
    (s.toList.dropWhile isBlank).dropWhile (!isBlank ·), ?_, ?_, ?_⟩
  · rwa [Ne, String.ofList_eq_empty_iff]
  · intro c hc
    rw [String.toList_ofList] at hc
    simpa using List.mem_takeWhile_imp hc
  · rw [String.toList_ofList, List.append_assoc, List.takeWhile_append_dropWhile,
      List.takeWhile_append_dropWhile]
  · exact fun c hc => List.mem_takeWhile_imp hc
  · intro c hc
    have hstop := List.head?_dropWhile_not (!isBlank ·) (s.toList.dropWhile isBlank)
    rw [hc] at hstop
    simpa using hstop

theorem isBlank_of_firstWord? (h : firstWord? s = none) : ∀ c ∈ s.toList, isBlank c := by
  have hempty : (s.toList.dropWhile isBlank).takeWhile (!isBlank ·) = [] := by
    rw [firstWord?] at h
    split at h
    · assumption
    · cases h
  cases hrest : s.toList.dropWhile isBlank with
  | nil => exact List.dropWhile_eq_nil_iff.1 hrest
  | cons c rest =>
    have hstop := List.head?_dropWhile_not isBlank s.toList
    rw [hrest] at hstop hempty
    rw [List.takeWhile_cons_of_pos (by simpa using hstop)] at hempty
    cases hempty

end Text

namespace Syntax

namespace Tree

/-- Whether a node tells of the faults below it. -/
def announces (r : Node) (cs : List Tree) : Bool :=
  !(preorderAll cs).any Node.isFault || r.hasError

/-- The node is a fault, and none stands before it in the tree. -/
def IsFirstFault (t : Tree) (n : Node) : Prop :=
  n.isFault ∧ ∃ before after, t.preorder = before ++ n :: after ∧ ∀ m ∈ before, !m.isFault

/-- What is cut off at a node that tells of nothing has no fault in it, so that the search passes
over the same trees as a walk through all of them. -/
theorem searchFault_eq {stack : List Tree} (h : ∀ t ∈ stack, t.every announces) :
    searchFault stack = (preorderAll stack).find? Node.isFault := by
  fun_induction searchFault stack with
  | case1 => rfl
  | case2 r cs stack hr =>
    rw [preorderAll, preorder, List.cons_append, List.find?_cons_of_pos hr]
  | case3 r cs stack hr herror ih =>
    obtain ⟨htop, hstack⟩ := List.forall_mem_cons.1 h
    have hcs : ∀ t ∈ cs, t.every announces := (every_node.1 htop).2
    rw [ih (List.forall_mem_append.2 ⟨hcs, hstack⟩), preorderAll_append, preorderAll, preorder,
      List.cons_append, List.find?_cons_of_neg hr]
  | case4 r cs stack hr herror ih =>
    obtain ⟨htop, hstack⟩ := List.forall_mem_cons.1 h
    have hclean : (preorderAll cs).find? Node.isFault = none := by
      have htold := (every_node.1 htop).1
      rw [announces, Bool.or_eq_true, Bool.not_eq_true', List.any_eq_false] at htold
      exact List.find?_eq_none.2 (htold.resolve_right herror)
    rw [ih hstack, preorderAll, preorder, List.cons_append, List.find?_cons_of_neg hr,
      List.find?_append, hclean, Option.none_or]

variable {t : Tree} {n : Node}

theorem fault?_eq (h : t.every announces) : t.fault? = t.preorder.find? Node.isFault := by
  rw [fault?, searchFault_eq (by simpa using h), preorderAll, preorderAll, List.append_nil]

theorem fault?_eq_some_iff (h : t.every announces) : t.fault? = some n ↔ t.IsFirstFault n := by
  rw [fault?_eq h, List.find?_eq_some_iff_append]
  rfl

theorem fault?_eq_none_iff (h : t.every announces) :
    t.fault? = none ↔ ∀ n ∈ t.preorder, n.isFault = false := by
  rw [fault?_eq h, List.find?_eq_none]
  simp

end Tree

/-- What a message says is wrong at a fault: that something is missing there, the word that it
starts with, or that the source ends. -/
inductive Describes (source : String) (n : Node) : String → Prop
  | missing (h : n.missing) : Describes source n ("Syntax error, missing '" ++ n.kind ++ "'")
  | unexpected {word : String} (h : n.missing = false)
      (hword : Text.IsFirstWord (Text.slice source n.start n.stop) word) :
      Describes source n ("Syntax error, unexpected '" ++ word ++ "'")
  | ending (h : n.missing = false)
      (hblank : ∀ c ∈ (Text.slice source n.start n.stop).toList, Text.isBlank c) :
      Describes source n "Syntax error, unexpected 'end of file'"

theorem describes_faultMessage (source : String) (n : Node) :
    Describes source n (n.faultMessage source) := by
  rw [Node.faultMessage]
  split
  · next h => exact .missing h
  · next h =>
    rw [Bool.not_eq_true] at h
    cases hword : Text.firstWord? (Text.slice source n.start n.stop) with
    | none => exact .ending h (Text.isBlank_of_firstWord? hword)
    | some word => exact .unexpected h (Text.isFirstWord_of_firstWord? hword)

/-- No fault has the message of a tree without one. -/
theorem Describes.ne {source message : String} {n : Node} (h : Describes source n message) :
    message ≠ "Syntax error" := by
  have longer {lead subject : String} (hlead : "Syntax error".length < lead.length) :
      lead ++ subject ++ "'" ≠ "Syntax error" := by
    intro hsame
    have hlength := congrArg String.length hsame
    rw [String.length_append, String.length_append] at hlength
    omega
  cases h with
  | missing h => exact longer (by decide)
  | unexpected h hword => exact longer (by decide)
  | ending h hblank => decide

theorem Node.errorAt_eq (source : String) (n : Node) (message : String) :
    n.errorAt source message =
      ⟨message, (Text.bytesBefore source n.start).count Text.lineFeed + 1,
        ((Text.bytesBefore source n.start).rtakeWhile (· != Text.lineFeed)).length + 1⟩ := by
  rw [Node.errorAt, Text.rowColumn_eq]

/-- In a tree whose nodes tell of the faults below them, the error is that of the first fault in
document order. It has a line for each line feed before the fault and a column for each byte behind
the last of them, and its message is the general one only where the tree has no fault. -/
theorem syntaxError_announced (source : String) (t : Tree) (h : t.every Tree.announces) :
    (∀ n, t.IsFirstFault n →
      let before := Text.bytesBefore source n.start
      Describes source n (t.syntaxError source).message ∧
        (t.syntaxError source).line = before.count Text.lineFeed + 1 ∧
        (t.syntaxError source).column =
          (before.rtakeWhile (· != Text.lineFeed)).length + 1) ∧
      ((t.syntaxError source).message = "Syntax error" ↔
        ∀ n ∈ t.preorder, n.isFault = false) := by
  refine ⟨fun n hn => ?_, fun hmessage => ?_, fun hclean => ?_⟩
  · have herror : t.syntaxError source = n.errorAt source (n.faultMessage source) := by
      rw [Tree.syntaxError, (Tree.fault?_eq_some_iff h).2 hn]
    rw [herror, Node.errorAt_eq]
    exact ⟨describes_faultMessage source n, rfl, rfl⟩
  · rw [← Tree.fault?_eq_none_iff h]
    cases hfault : t.fault? with
    | none => rfl
    | some n =>
      rw [Tree.syntaxError, hfault, Node.errorAt_eq] at hmessage
      exact absurd hmessage (describes_faultMessage source n).ne
  · rw [Tree.syntaxError, (Tree.fault?_eq_none_iff h).2 hclean, Node.errorAt_eq]

section

/-- An assignment that ends before its value, and more that is wrong behind it. -/
def cutAssignment : Tree :=
  .node { kind := "program", hasError := true, start := 0, stop := 15 }
    [.node { kind := "php_tag", start := 0, stop := 5 } [],
      .node { kind := "expression_statement", hasError := true, start := 6, stop := 13 }
        [.node { kind := "assignment_expression", hasError := true, start := 6, stop := 12 }
            [.node { kind := "variable_name", start := 6, stop := 9 }
                [.node { kind := "$", named := false, start := 6, stop := 7 } [],
                  .node { kind := "name", start := 7, stop := 9 } []],
              .node { kind := "=", named := false, start := 10, stop := 11 } [],
              .node { kind := "name", missing := true, hasError := true, start := 12, stop := 12 } []],
          .node { kind := ";", named := false, start := 12, stop := 13 } []],
      .node { kind := "ERROR", isError := true, hasError := true, start := 14, stop := 15 } []]

theorem syntaxError_cutAssignment :
    let source := "<?php\n$é = ; )"
    let lacking : Node :=
      { kind := "name", missing := true, hasError := true, start := 12, stop := 12 }
    cutAssignment.every Tree.announces ∧ cutAssignment.IsFirstFault lacking ∧
      Describes source lacking (cutAssignment.syntaxError source).message ∧
      (cutAssignment.syntaxError source).line = 2 ∧
      (cutAssignment.syntaxError source).column = 7 := by
  intro source lacking
  have htold : cutAssignment.every Tree.announces := by decide
  have hfirst : cutAssignment.IsFirstFault lacking :=
    ⟨rfl, cutAssignment.preorder.take 8, cutAssignment.preorder.drop 9, rfl, by decide⟩
  obtain ⟨hmessage, hline, hcolumn⟩ :=
    (syntaxError_announced source cutAssignment htold).1 lacking hfirst
  have hbytes : Text.bytesBefore source lacking.start =
      [60, 63, 112, 104, 112, 10, 36, 195, 169, 32, 61, 32] := by decide
  rw [hbytes] at hline hcolumn
  exact ⟨htold, hfirst, hmessage, hline, hcolumn⟩

end

end Syntax

end Stubsmith
