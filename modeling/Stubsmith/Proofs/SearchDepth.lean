import Mathlib.Data.List.Perm.Subperm
import Stubsmith.Proofs.Descent
import Stubsmith.Proofs.JoinedPath

namespace Stubsmith

namespace Entry

mutual

/-- The locations of directories. -/
def directories : Entry → List Location
  | file _ => []
  | link _ => []
  | directory es => [] :: directoriesAll es

def directoriesAll : List (String × Entry) → List Location
  | [] => []
  | (name, e) :: es => (directories e).map (name :: ·) ++ directoriesAll es

end

mutual

theorem length_directories (e : Entry) : e.directories.length = e.directoryCount := by
  match e with
  | file _ => rfl
  | link _ => rfl
  | directory es =>
    rw [directories, directoryCount, List.length_cons, length_directoriesAll es, Nat.add_comm]

theorem length_directoriesAll (es : List (String × Entry)) :
    (directoriesAll es).length = directoryCountAll es := by
  match es with
  | [] => rfl
  | (name, e) :: es =>
    rw [directoriesAll, directoryCountAll, List.length_append, List.length_map,
      length_directories e, length_directoriesAll es]

end

theorem mem_directoriesAll {name : String} {e : Entry} {l : Location} {es : List (String × Entry)}
    (h : es.lookup name = some e) (hl : l ∈ e.directories) : name :: l ∈ directoriesAll es := by
  induction es with
  | nil => cases h
  | cons entry es ih =>
    obtain ⟨first, inner⟩ := entry
    rw [directoriesAll, List.mem_append]
    rw [List.lookup_cons] at h
    split at h
    · next heq =>
      obtain rfl := beq_iff_eq.1 heq
      obtain rfl := Option.some.inj h
      exact .inl (List.mem_map_of_mem hl)
    · exact .inr (ih h)

theorem mem_directories {e : Entry} {l : Location} (h : e.look l = some .directory) :
    l ∈ e.directories := by
  induction l generalizing e with
  | nil =>
    obtain ⟨es, hes⟩ := look_eq_directory.1 h
    cases hes
    exact List.mem_cons_self
  | cons name l ih =>
    obtain ⟨es, hes⟩ := look_eq_directory.1 (look_parent (l := []) (m := name :: l) h)
    cases hes
    obtain ⟨found, hfound⟩ := look_eq_directory.1 h
    obtain ⟨inner, hinner, hl⟩ := Option.bind_eq_some_iff.1 hfound
    exact List.mem_cons_of_mem _ (mem_directoriesAll hinner (ih (look_eq_directory.2 ⟨found, hl⟩)))

/-- No more locations are those of directories than there are directories. -/
theorem length_le_directoryCount {e : Entry} {ls : List Location} (hnodup : ls.Nodup)
    (h : ∀ l ∈ ls, e.look l = some .directory) : ls.length ≤ e.directoryCount := by
  rw [← length_directories]
  exact (hnodup.subperm fun l hl => mem_directories (h l hl)).length_le

end Entry

namespace FileSystem

open Relation (TransGen)

/-- No two entries of a directory have one name, and every name can stand in a path. -/
def WellNamed (fs : FileSystem) : Prop :=
  ∀ l es, fs.root.get? l = some (.directory es) →
    (es.map Prod.fst).Nodup ∧ ∀ entry ∈ es, IsName entry.1 ∧ '/' ∉ entry.1.toList

theorem isName_iff {name : String} : IsName name ↔
    name ≠ "" ∧ name ≠ "." ∧ name ≠ ".." ∧ name.utf8ByteSize ≤ nameLimit := by
  constructor
  · intro h
    exact ⟨h.nonempty, h.ne_dot, h.ne_dots, h.short⟩
  · intro h
    exact ⟨h.1, h.2.1, h.2.2.1, h.2.2.2⟩

instance : DecidablePred IsName := fun _ => decidable_of_iff' _ isName_iff

theorem wellNamed_iff {fs : FileSystem} : fs.WellNamed ↔ ∀ l ∈ fs.root.directories,
    ∀ e ∈ fs.root.get? l, (e.entries.map Prod.fst).Nodup ∧
      ∀ entry ∈ e.entries, IsName entry.1 ∧ '/' ∉ entry.1.toList := by
  constructor
  · intro h l _ e he
    cases e with
    | directory es => exact h l es he
    | file contents => simp [Entry.entries]
    | link target => simp [Entry.entries]
  · intro h l es hget
    exact h l (Entry.mem_directories (Entry.look_eq_directory.2 ⟨es, hget⟩)) _ hget

instance (fs : FileSystem) : Decidable fs.WellNamed :=
  decidable_of_iff' _ wellNamed_iff

/-- From a directory to one that a search enters next, by one of its entries. -/
inductive Enters (fs : FileSystem) : Location → Location → Prop where
  | down {here : Location} {name : String} {es inner : List (String × Entry)}
      (hget : fs.root.get? here = some (.directory es)) (hmem : (name, .directory inner) ∈ es)
      (hname : name ∉ versionControlNames) : Enters fs here (here ++ [name])
  | link {n : Nat} {here there : Location} {name target : String} {es inner : List (String × Entry)}
      (hget : fs.root.get? here = some (.directory es)) (hmem : (name, .link target) ∈ es)
      (hname : name ∉ versionControlNames)
      (hspot : Route.spot fs.root true ⟨n, here, [name]⟩ =
        .ok (.present there (.directory inner))) : Enters fs here there

/-- Where a search stands: the directories above it are different ones, and each is on the way. -/
structure OnWay (fs : FileSystem) (above : List (Location × String)) (path : String)
    (here : Location) (es : List (String × Entry)) : Prop where
  get?_eq : fs.root.get? here = some (.directory es)
  continues : fs.ContinuesAt path here
  distinct : (above.map Prod.fst).Nodup
  directories : ∀ l ∈ above.map Prod.fst, fs.root.look l = some .directory
  way : ∀ l ∈ above.map Prod.fst,
    TransGen (fun l m => fs.Enters l m ∧ m ∈ here :: above.map Prod.fst) l here

variable {fs : FileSystem} {depth : Nat} {above : List (Location × String)} {path : String}
  {here there location : Location} {es inner : List (String × Entry)} {entry : String × Entry}
  {e : Entry} {found : List String}

theorem lookup_eq_of_mem {α β : Type} [BEq α] [LawfulBEq α] {l : List (α × β)} {a : α} {b : β}
    (hnodup : (l.map Prod.fst).Nodup) (h : (a, b) ∈ l) : l.lookup a = some b := by
  obtain ⟨front, behind, rfl⟩ := List.append_of_mem h
  rw [List.lookup_eq_some_iff]
  refine ⟨front, behind, rfl, fun p hp => bne_iff_ne.2 ?_⟩
  rw [List.map_append, List.nodup_append] at hnodup
  exact (hnodup.2.2 p.1 (List.mem_map_of_mem hp) a (by simp)).symm

theorem WellNamed.get?_entry (hnames : fs.WellNamed)
    (hget : fs.root.get? here = some (.directory es)) (hmem : entry ∈ es) :
    fs.root.get? (here ++ [entry.1]) = some entry.2 := by
  rw [Entry.get?_append, hget, Option.bind_some, Entry.get?, Entry.entries,
    lookup_eq_of_mem (hnames here es hget).1 hmem]
  rfl

theorem find_of_resolveEntry {target : String}
    (h : fs.resolveEntry path here (.link target) = .ok (location, e)) :
    fs.find path = .ok (location, e) := by
  rw [resolveEntry] at h
  cases hfind : fs.find path with
  | ok found =>
    rw [hfind] at h
    exact congrArg Except.ok (Except.ok.inj h)
  | error cause =>
    rw [hfind] at h
    cases h

theorem exists_entryFiles (h : fs.searchWithin depth above path here es = .ok found)
    (hmem : entry ∈ es) :
    ∃ depth' found', fs.entryFiles depth' above path here entry = .ok found' := by
  cases depth with
  | zero => simp [searchWithin] at h
  | succ depth =>
    rw [searchWithin_succ] at h
    obtain ⟨found', hfound⟩ := (mem_foldlM_append h).1 entry
      ((List.mergeSort_perm es _).mem_iff.2 hmem)
    exact ⟨depth, found', hfound⟩

/-- Where a search comes to an end, what it enters on the way is below: a link would be a cycle. -/
theorem enters_below (hnames : fs.WellNamed)
    (h : fs.searchWithin depth above path here es = .ok found)
    (hget : fs.root.get? here = some (.directory es)) (hcont : fs.ContinuesAt path here)
    (henters : fs.Enters here there) (hmem : there ∈ here :: above.map Prod.fst) :
    ∃ name inner depth' found', there = here ++ [name] ∧
      fs.root.get? there = some (.directory inner) ∧ fs.ContinuesAt (Path.join path name) there ∧
      fs.searchWithin depth' ((here, path) :: above) (Path.join path name) there inner =
        .ok found' := by
  cases henters with
  | @down _ name es' inner hget' hentry hname =>
    obtain rfl : es' = es := by simpa [hget'] using hget
    obtain ⟨depth', found', hfiles⟩ := exists_entryFiles h hentry
    obtain ⟨location, target, hresolve, -, hbelow⟩ := entryFiles_eq_ok.1 hfiles
    obtain ⟨rfl, rfl⟩ := Prod.mk.inj (Except.ok.inj hresolve)
    rw [targetFiles, if_neg (by simpa using hname)] at hbelow
    obtain ⟨hn, hslash⟩ := (hnames here es' hget).2 _ hentry
    have hthere := hnames.get?_entry hget hentry
    exact ⟨name, inner, depth', found', rfl, hthere,
      hcont.down hn hslash (Entry.look_eq_directory.2 ⟨inner, hthere⟩), hbelow⟩
  | @link _ _ _ name target es' inner hget' hentry hname hspot =>
    obtain rfl : es' = es := by simpa [hget'] using hget
    obtain ⟨depth', found', hfiles⟩ := exists_entryFiles h hentry
    obtain ⟨location, target', hresolve, hcycle, -⟩ := entryFiles_eq_ok.1 hfiles
    obtain ⟨hn, hslash⟩ := (hnames here es' hget).2 _ hentry
    obtain ⟨n, hspot'⟩ := hcont.spot_of_find hn hslash (find_of_resolveEntry hresolve)
    cases spot_unique hspot hspot'
    have hnone : ∀ p ∈ (here, path) :: above, there != p.1 := List.lookup_eq_none_iff.1 hcycle
    obtain ⟨p, hp, heq⟩ : ∃ p ∈ (here, path) :: above, p.1 = there := List.mem_map.1 hmem
    exact absurd heq.symm (bne_iff_ne.1 (hnone p hp))

/-- Where a search comes to an end, a way through directories that it is in leads further down. -/
theorem length_lt_of_way (hnames : fs.WellNamed) {on : List Location} {last : Location}
    (hway : TransGen (fun l m => fs.Enters l m ∧ m ∈ on) here last)
    (h : fs.searchWithin depth above path here es = .ok found)
    (hget : fs.root.get? here = some (.directory es)) (hcont : fs.ContinuesAt path here)
    (hon : ∀ l ∈ on, l ∈ here :: above.map Prod.fst) : here.length < last.length := by
  -- the search goes along the way, so that the directories behind it are those that it is in
  induction hway using TransGen.head_induction_on generalizing depth above path es found with
  | single hstep =>
    obtain ⟨name, inner, depth', found', rfl, -⟩ :=
      enters_below hnames h hget hcont hstep.1 (hon _ hstep.2)
    simp
  | head hstep hrest ih =>
    obtain ⟨name, inner, depth', found', rfl, hget', hcont', h'⟩ :=
      enters_below hnames h hget hcont hstep.1 (hon _ hstep.2)
    have hlt := ih h' hget' hcont' fun l hl => List.mem_cons_of_mem _ (hon l hl)
    rw [List.length_append] at hlt
    exact Nat.lt_of_le_of_lt (Nat.le_add_right _ _) hlt

namespace OnWay

/-- A search that comes to an end is in no directory twice. -/
theorem not_mem_above (hway : fs.OnWay above path here es) (hnames : fs.WellNamed)
    (h : fs.searchWithin depth above path here es = .ok found) : here ∉ above.map Prod.fst := by
  intro hmem
  have hlt := length_lt_of_way hnames (hway.way here hmem) h hway.get?_eq hway.continues
    fun _ hl => hl
  exact Nat.lt_irrefl _ hlt

theorem enter (hway : fs.OnWay above path here es) (hnames : fs.WellNamed)
    (hnot : here ∉ above.map Prod.fst) (hmem : entry ∈ es)
    (hresolve : fs.resolveEntry (Path.join path entry.1) (here ++ [entry.1]) entry.2 =
      .ok (location, .directory inner)) (hname : entry.1 ∉ versionControlNames) :
    fs.OnWay ((here, path) :: above) (Path.join path entry.1) location inner := by
  obtain ⟨name, e⟩ := entry
  obtain ⟨hn, hslash⟩ := (hnames here es hway.get?_eq).2 _ hmem
  obtain ⟨hget, hcont, henters⟩ : fs.root.get? location = some (.directory inner) ∧
      fs.ContinuesAt (Path.join path name) location ∧ fs.Enters here location := by
    cases e with
    | file contents => cases hresolve
    | directory es' =>
      obtain ⟨rfl, h⟩ := Prod.mk.inj (Except.ok.inj hresolve)
      obtain rfl := Entry.directory.inj h
      have hget := hnames.get?_entry hway.get?_eq hmem
      exact ⟨hget, hway.continues.down hn hslash (Entry.look_eq_directory.2 ⟨_, hget⟩),
        .down hway.get?_eq hmem hname⟩
    | link target =>
      have hfind := find_of_resolveEntry hresolve
      obtain ⟨hget, hcont⟩ := continuesAt_of_find hfind
      obtain ⟨n, hspot⟩ := hway.continues.spot_of_find hn hslash hfind
      exact ⟨hget, hcont, .link hway.get?_eq hmem hname hspot⟩
  refine ⟨hget, hcont, List.nodup_cons.2 ⟨hnot, hway.distinct⟩, ?_, ?_⟩
  · intro l hl
    rcases List.mem_cons.1 hl with rfl | hl
    · exact Entry.look_eq_directory.2 ⟨es, hway.get?_eq⟩
    · exact hway.directories l hl
  · intro l hl
    rcases List.mem_cons.1 hl with rfl | hl
    · exact .single ⟨henters, by simp⟩
    · refine .tail ((hway.way l hl).lift id fun a b hab => ?_) ⟨henters, by simp⟩
      exact ⟨hab.1, List.mem_cons_of_mem _ hab.2⟩

end OnWay

/-- A search that comes to an end within some depth does so within the number of directories that
are not yet on the way. -/
theorem searchWithin_bound (hnames : fs.WellNamed) {bound : Nat}
    (hway : fs.OnWay above path here es)
    (h : fs.searchWithin depth above path here es = .ok found)
    (hbound : fs.root.directoryCount ≤ bound + above.length) :
    fs.searchWithin bound above path here es = .ok found := by
  induction depth generalizing bound above path here es found with
  | zero => simp [searchWithin] at h
  | succ depth ih =>
    have hnot := hway.not_mem_above hnames h
    have hlength : (here :: above.map Prod.fst).length ≤ fs.root.directoryCount := by
      refine Entry.length_le_directoryCount (List.nodup_cons.2 ⟨hnot, hway.distinct⟩) fun l hl => ?_
      rcases List.mem_cons.1 hl with rfl | hl
      · exact Entry.look_eq_directory.2 ⟨es, hway.get?_eq⟩
      · exact hway.directories l hl
    rw [List.length_cons, List.length_map] at hlength
    obtain ⟨bound, rfl⟩ : ∃ b, bound = b + 1 := ⟨bound - 1, by omega⟩
    rw [searchWithin_succ] at h ⊢
    obtain ⟨hall, -⟩ := mem_foldlM_append h
    rw [← h]
    apply foldlM_append_congr
    intro entry hentry
    obtain ⟨more, hmore⟩ := hall entry hentry
    obtain ⟨location, target, hresolve, hcycle, hfiles⟩ := entryFiles_eq_ok.1 hmore
    rw [hmore, entryFiles_eq_ok]
    refine ⟨location, target, hresolve, hcycle, ?_⟩
    cases target with
    | file contents => exact hfiles
    | link target => exact hfiles
    | directory inner =>
      rw [targetFiles] at hfiles ⊢
      by_cases hname : entry.1 ∈ versionControlNames
      · simpa [hname] using hfiles
      · rw [if_neg (by simpa using hname)] at hfiles ⊢
        have hmem := (List.mergeSort_perm es _).mem_iff.1 hentry
        exact ih (hway.enter hnames hnot hmem hresolve hname) hfiles (by simp; omega)

/-- The bound of a search is no restriction: with any other one it finds the same, if it comes to an
end. -/
theorem search_eq_ok_iff (hnames : fs.WellNamed)
    (hfind : fs.find path = .ok (here, .directory es)) :
    fs.search path = .ok found ↔ ∃ depth, fs.searchWithin depth [] path here es = .ok found := by
  rw [search, hfind]
  constructor
  · intro h
    exact ⟨_, h⟩
  · intro h
    obtain ⟨depth, h⟩ := h
    obtain ⟨hget, hcont⟩ := continuesAt_of_find hfind
    have hway : fs.OnWay [] path here es := ⟨hget, hcont, by simp, by simp, by simp⟩
    exact searchWithin_bound hnames hway h (by simp)

example : WellNamed ⟨.directory [("src", .directory [("up", .link "..")])], ["src"]⟩ := by
  decide +kernel

end FileSystem

end Stubsmith
