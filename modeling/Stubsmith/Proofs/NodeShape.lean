import Stubsmith.Proofs.Rendering

namespace Stubsmith.Syntax

/-- Kinds of names and of what they are made of. -/
def isNamePart (kind : String) : Bool :=
  isNameKind kind || kind == "namespace_name"

/-- Whether a tree holds parts of a name only. -/
def isPlainName (t : Tree) : Bool :=
  t.every fun r cs => cs.isEmpty || isNamePart r.kind

/-- Whether the children of a node that are named, comments apart, have one each of some roles. -/
def haveRoles (roles : List String) (cs : List Tree) : Bool :=
  ((cs.filter fun c => c.isNamed && c.kind != "comment").all fun c =>
    roles.any fun role => hasField role c) && decide (cs.filterMap Tree.field).Nodup

/-- What the grammar lets a node have as children. -/
structure Shaped (r : Node) (cs : List Tree) : Prop where
  leaf : r.named = false ∨ r.kind = "comment" → cs.isEmpty
  named : isNameKind r.kind → r.named
  /-- Behind two colons a name can stand for a computed one. -/
  plain : ∀ c ∈ if isScopeKind r.kind then cs.take 1 else cs, isNameKind c.kind → isPlainName c
  scope : isScopeKind r.kind → cs.head?.any Tree.isNamed
  type : r.kind = "named_type" →
    (cs.filter Tree.isNamed).length ≤ 1 ∧ ∀ c ∈ cs, c.isNamed → isNameKind c.kind
  call : r.kind = "function_call_expression" → haveRoles ["function", "arguments"] cs
  member : isMemberKind r.kind → haveRoles ["object", "name", "arguments"] cs
  binary : r.kind = "binary_expression" → haveRoles ["left", "right"] cs
  label : r.kind = "argument" →
    (cs.filterMap Tree.field).Nodup ∧ ∀ c ∈ cs, hasField "name" c → isNameKind c.kind

instance (r : Node) (cs : List Tree) : Decidable (Shaped r cs) :=
  decidable_of_iff (_ ∧ _ ∧ _ ∧ _ ∧ _ ∧ _ ∧ _ ∧ _ ∧ _)
    ⟨fun ⟨a, b, c, d, e, f, g, h, i⟩ => ⟨a, b, c, d, e, f, g, h, i⟩,
      fun ⟨a, b, c, d, e, f, g, h, i⟩ => ⟨a, b, c, d, e, f, g, h, i⟩⟩

def isShaped (r : Node) (cs : List Tree) : Bool :=
  decide (Shaped r cs)

/-- A tree that the parser gives for a fragment without errors. -/
structure WellFormed (source : String) (t : Tree) : Prop where
  ranged : t.every (isRanged source)
  shaped : t.every isShaped
  plain : isNameKind t.kind → isPlainName t

section

variable {kind : String}

theorem isScopeKind_iff :
    isScopeKind kind ↔ kind = "class_constant_access_expression" ∨
      kind = "scoped_call_expression" ∨ kind = "scoped_property_access_expression" := by
  simp [isScopeKind]

theorem isMemberKind_iff :
    isMemberKind kind ↔ kind = "member_access_expression" ∨
      kind = "nullsafe_member_access_expression" ∨ kind = "member_call_expression" ∨
      kind = "nullsafe_member_call_expression" := by
  simp [isMemberKind]

theorem isScopeKind_of_isMemberKind (h : isMemberKind kind) : isScopeKind kind = false := by
  obtain rfl | rfl | rfl | rfl := isMemberKind_iff.1 h <;> rfl

end

section

variable {p : Tree → Bool} {before after : List Tree} {c : Tree}

theorem isFirst_iff :
    isFirst p (before ++ c :: after) before.length ↔ p c ∧ ∀ b ∈ before, ¬p b := by
  rw [isFirst, beq_iff_eq]
  induction before with
  | nil => by_cases h : p c <;> simp [List.findIdx?_cons, h]
  | cons b before ih =>
    by_cases h : p b
    · simp [List.findIdx?_cons, h]
    · rw [List.cons_append, List.findIdx?_cons, if_neg h, List.length_cons,
        Option.map_eq_some_iff]
      simpa [h] using ih

theorem isFirst_of_not (h : ¬p c) : isFirst p (before ++ c :: after) before.length = false := by
  rw [Bool.eq_false_iff]
  exact fun hfirst => h (isFirst_iff.1 hfirst).1

theorem isFirst_hasField {role : String} (h : ((before ++ c :: after).filterMap Tree.field).Nodup)
    (hc : hasField role c) : isFirst (hasField role) (before ++ c :: after) before.length := by
  rw [isFirst_iff]
  refine ⟨hc, fun b hb hrole => ?_⟩
  rw [List.filterMap_append, List.nodup_append] at h
  rw [hasField, beq_iff_eq] at hc hrole
  have hearlier : role ∈ before.filterMap Tree.field := List.mem_filterMap.2 ⟨b, hb, hrole⟩
  have hlater : role ∈ (c :: after).filterMap Tree.field := by simp [hc]
  exact h.2.2 role hearlier role hlater rfl

theorem nodup_of_haveRoles {roles : List String} {cs : List Tree} (h : haveRoles roles cs) :
    (cs.filterMap Tree.field).Nodup := by
  rw [haveRoles, Bool.and_eq_true, decide_eq_true_eq] at h
  exact h.2

theorem not_hasField {role other : String} (h : hasField role c) (hne : role ≠ other) :
    ¬hasField other c := by
  rw [hasField, beq_iff_eq] at h ⊢
  rwa [h, Option.some_inj]

theorem exists_role {roles : List String} (h : haveRoles roles (before ++ c :: after))
    (hnamed : c.isNamed) (hkind : c.kind ≠ "comment") : ∃ role ∈ roles, hasField role c := by
  rw [haveRoles, Bool.and_eq_true, List.all_eq_true] at h
  have hmem : c ∈ (before ++ c :: after).filter fun c => c.isNamed && c.kind != "comment" := by
    simp [hnamed, hkind]
  simpa using h.1 c hmem

end

section

variable {kind : String} {before after : List Tree} {c : Tree}

theorem reading?_member (hkind : isMemberKind kind)
    (hroles : haveRoles ["object", "name", "arguments"] (before ++ c :: after))
    (hnamed : c.isNamed) (hcomment : c.kind ≠ "comment") :
    reading? kind (before ++ c :: after) before.length c =
      if hasField "name" c then none else some .constant := by
  have heq : reading? kind (before ++ c :: after) before.length c =
      if isFirst (hasField "object") (before ++ c :: after) before.length ||
        isFirst (hasField "arguments") (before ++ c :: after) before.length
      then some .constant else none := by
    obtain rfl | rfl | rfl | rfl := isMemberKind_iff.1 hkind <;> rfl
  obtain ⟨role, hrole, hfield⟩ := exists_role hroles hnamed hcomment
  have hother : ∀ other, role ≠ other → ¬hasField other c := fun _ => not_hasField hfield
  rw [heq]
  simp only [List.mem_cons, List.not_mem_nil, or_false] at hrole
  obtain rfl | rfl | rfl := hrole
  · rw [isFirst_hasField (nodup_of_haveRoles hroles) hfield, if_neg (hother "name" (by decide))]
    rfl
  · rw [isFirst_of_not (hother "object" (by decide)), isFirst_of_not (hother "arguments" (by decide)),
      if_pos hfield]
    rfl
  · rw [isFirst_hasField (nodup_of_haveRoles hroles) hfield, if_neg (hother "name" (by decide)),
      Bool.or_true]
    rfl

theorem reading?_scope (hkind : isScopeKind kind)
    (hhead : (before ++ c :: after).head?.any Tree.isNamed) (hnamed : c.isNamed) :
    reading? kind (before ++ c :: after) before.length c =
      if before.isEmpty then some .classLike
      else if isNameKind c.kind then none
      else some .constant := by
  have heq : reading? kind (before ++ c :: after) before.length c =
      if isFirst Tree.isNamed (before ++ c :: after) before.length then some .classLike
      else if c.isNamed && !isNameKind c.kind then some .constant else none := by
    obtain rfl | rfl | rfl := isScopeKind_iff.1 hkind <;> rfl
  rw [heq]
  cases before with
  | nil =>
    rw [isFirst_iff.2 ⟨hnamed, by simp⟩]
    rfl
  | cons b before =>
    have hb : b.isNamed := by simpa using hhead
    have hnot : isFirst Tree.isNamed (b :: before ++ c :: after) (b :: before).length = false := by
      rw [Bool.eq_false_iff]
      exact fun h => (isFirst_iff.1 h).2 b List.mem_cons_self hb
    rw [hnot, hnamed]
    cases isNameKind c.kind <;> rfl

theorem reading?_call (hroles : haveRoles ["function", "arguments"] (before ++ c :: after))
    (hnamed : c.isNamed) (hcomment : c.kind ≠ "comment") :
    reading? "function_call_expression" (before ++ c :: after) before.length c =
      if hasField "function" c then some .function else some .constant := by
  have heq : reading? "function_call_expression" (before ++ c :: after) before.length c =
      if isFirst (hasField "function") (before ++ c :: after) before.length then some .function
      else if isFirst (hasField "arguments") (before ++ c :: after) before.length
      then some .constant else none := rfl
  obtain ⟨role, hrole, hfield⟩ := exists_role hroles hnamed hcomment
  have hfirst := isFirst_hasField (nodup_of_haveRoles hroles) hfield
  simp only [List.mem_cons, List.not_mem_nil, or_false] at hrole
  obtain rfl | rfl := hrole
  · rw [heq, hfirst, hfield]
    rfl
  · have hfunction : ¬hasField "function" c := not_hasField hfield (by decide)
    rw [heq, hfirst, isFirst_of_not hfunction, if_neg hfunction]
    rfl

theorem reading?_binary (hroles : haveRoles ["left", "right"] (before ++ c :: after))
    (hnamed : c.isNamed) (hcomment : c.kind ≠ "comment") :
    reading? "binary_expression" (before ++ c :: after) before.length c =
      if hasField "right" c &&
        ((before ++ c :: after).find? (hasField "operator")).map Tree.kind == some "instanceof"
      then some .classLike else some .constant := by
  have heq : reading? "binary_expression" (before ++ c :: after) before.length c =
      if isFirst (hasField "left") (before ++ c :: after) before.length then some .constant
      else if isFirst (hasField "right") (before ++ c :: after) before.length then
        if ((before ++ c :: after).find? (hasField "operator")).map Tree.kind == some "instanceof"
        then some .classLike else some .constant
      else none := rfl
  obtain ⟨role, hrole, hfield⟩ := exists_role hroles hnamed hcomment
  have hfirst := isFirst_hasField (nodup_of_haveRoles hroles) hfield
  simp only [List.mem_cons, List.not_mem_nil, or_false] at hrole
  obtain rfl | rfl := hrole
  · have hright : ¬hasField "right" c := not_hasField hfield (by decide)
    rw [heq, hfirst, Bool.eq_false_iff.2 hright]
    rfl
  · have hleft : ¬hasField "left" c := not_hasField hfield (by decide)
    rw [heq, hfirst, isFirst_of_not hleft, hfield, Bool.true_and]
    rfl

end

section

variable {r : Node} {before after : List Tree} {t : Tree}

theorem isPlainName_leaf (r : Node) : isPlainName (.node r []) := by
  simp [isPlainName, Tree.every, Tree.everyAll]

theorem Tree.root_shaped (h : t.every isShaped) : Shaped t.root t.children := by
  obtain ⟨r, cs⟩ := t
  exact of_decide_eq_true (Tree.every_node.1 h).1

theorem named_of_isNameKind (h : t.every isShaped) (hkind : isNameKind t.kind) : t.isNamed :=
  (Tree.root_shaped h).named hkind

/-- What is more than a name is neither a token nor a comment. -/
theorem named_of_not_plain (h : t.every isShaped) (hplain : isPlainName t = false) :
    t.isNamed ∧ t.kind ≠ "comment" := by
  have hne : ¬(t.root.named = false ∨ t.root.kind = "comment") := by
    intro hleaf
    obtain ⟨r, cs⟩ := t
    have hempty : cs.isEmpty := (Tree.root_shaped h).leaf hleaf
    rw [List.isEmpty_iff.1 hempty, isPlainName_leaf] at hplain
    exact absurd hplain (by decide)
  rw [not_or, Bool.not_eq_false] at hne
  exact hne

theorem Shaped.not_name (h : Shaped r (before ++ t :: after)) (hscope : isScopeKind r.kind = false)
    (hplain : isPlainName t = false) : isNameKind t.kind = false := by
  rw [Bool.eq_false_iff]
  intro hname
  have hwhole := h.plain t (by simp [hscope]) hname
  rw [hplain] at hwhole
  exact absurd hwhole (by decide)

/-- Nodes of the kinds that have no rule of their own for what they leave out read all that is more
than a name. -/
theorem reading?_ne_none (h : Shaped r (before ++ t :: after)) (ht : t.every isShaped)
    (hplain : isPlainName t = false) (hskipped : isOpaqueKind r.kind = false)
    (hmember : isMemberKind r.kind = false) (hscope : isScopeKind r.kind = false) :
    reading? r.kind (before ++ t :: after) before.length t ≠ none := by
  obtain ⟨hnamed, hcomment⟩ := named_of_not_plain ht hplain
  have hmem : t ∈ before ++ t :: after := by simp
  have hname : isNameKind t.kind ≠ true := Bool.eq_false_iff.1 (h.not_name hscope hplain)
  by_cases hcall : r.kind = "function_call_expression"
  · rw [hcall, reading?_call (h.call hcall) hnamed hcomment]
    cases hasField "function" t <;> simp
  by_cases hbinary : r.kind = "binary_expression"
  · rw [hbinary, reading?_binary (h.binary hbinary) hnamed hcomment]
    split <;> simp
  have htype : r.kind ≠ "named_type" := fun htype => hname ((h.type htype).2 t hmem hnamed)
  by_cases hargument : r.kind = "argument"
  · have hlabel : isFirst (hasField "name") (before ++ t :: after) before.length = false :=
      isFirst_of_not fun hfield => hname ((h.label hargument).2 t hmem hfield)
    simp [reading?, hargument, isOpaqueKind, isScopeKind, isMemberKind, hnamed, hlabel]
  by_cases hnew : r.kind = "object_creation_expression" ∨ r.kind = "attribute"
  · simp [reading?, hskipped, htype, hscope, hnew, hnamed]
  · simp [reading?, hskipped, htype, hscope, hnew, hcall, hmember, hbinary, hargument, hnamed]

end

end Stubsmith.Syntax
