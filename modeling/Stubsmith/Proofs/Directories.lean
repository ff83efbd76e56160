import Stubsmith.Proofs.ParentPath

namespace Stubsmith.FileSystem

/-- The directory that relative paths start from is there. -/
def Sound (fs : FileSystem) : Prop :=
  fs.root.look fs.working = some .directory

/-- The file system afterwards has new directories at most. -/
structure Grows (fs after : FileSystem) : Prop where
  working : after.working = fs.working
  look (l : Location) : after.root.look l = fs.root.look l ∨
    fs.root.look l = none ∧ after.root.look l = some .directory

namespace Grows

variable {fs middle after : FileSystem}

theorem refl (fs : FileSystem) : Grows fs fs :=
  ⟨rfl, fun _ => .inl rfl⟩

theorem trans (h : Grows fs middle) (h' : Grows middle after) : Grows fs after := by
  refine ⟨h'.working.trans h.working, fun l => ?_⟩
  rcases h.look l with he | ⟨hnone, hdir⟩
  · rcases h'.look l with he' | ⟨hnone', hdir'⟩
    · exact .inl (he'.trans he)
    · exact .inr ⟨he.symm.trans hnone', hdir'⟩
  · rcases h'.look l with he' | ⟨hnone', -⟩
    · exact .inr ⟨hnone, he'.trans hdir⟩
    · rw [hdir] at hnone'
      cases hnone'

theorem look_some (h : Grows fs after) {l : Location} {i : Item} (hl : fs.root.look l = some i) :
    after.root.look l = some i := by
  rcases h.look l with he | ⟨hnone, -⟩
  · exact he.trans hl
  · rw [hl] at hnone
    cases hnone

theorem look_none (h : Grows fs after) {l : Location} (hl : after.root.look l = none) :
    fs.root.look l = none := by
  rcases h.look l with he | ⟨hnone, -⟩
  · exact he.symm.trans hl
  · exact hnone

theorem keepsWays (h : Grows fs after) : KeepsWays fs.root after.root :=
  fun _ => ⟨h.look_some, fun _ => h.look_some⟩

theorem sound (h : Grows fs after) (hs : fs.Sound) : after.Sound := by
  rw [Sound, h.working]
  exact h.look_some hs

end Grows

/-- A path leads to a directory that is new and has nothing in it. -/
def LeadsToNew (fs after : FileSystem) (path : String) : Prop :=
  ∃ l e, after.find path = .ok (l, e) ∧ fs.root.look l = none ∧
    after.root.look l = some .directory ∧ ∀ name, after.root.look (l ++ [name]) = none

variable {fs after : FileSystem} {path : String}

theorem start_directory (hs : fs.Sound) (path : String) :
    fs.root.look (fs.start path).here = some .directory := by
  dsimp only [start]
  split
  · exact Entry.look_parent (m := fs.working) hs
  · exact hs

theorem vacant_spec (hs : fs.Sound) {throughLast : Bool} {parent : Location} {name : String}
    {slash : Bool} (h : fs.locate throughLast path = .ok (.vacant parent name slash)) :
    fs.root.look parent = some .directory ∧ fs.root.look (parent ++ [name]) = none ∧
      ∃ n rest, Steps fs.root throughLast (fs.start path) ⟨n, parent, name :: rest⟩ ∧
        IsName name ∧ isEnd rest = true ∧ slash = !rest.isEmpty := by
  obtain ⟨last, hsteps, hstops⟩ := steps_of_locate h
  cases hstops with
  | @vacant n here piece rest hn hl he =>
    exact ⟨steps_directory hsteps (start_directory hs path), hl, n, rest, hsteps, hn, he, rfl⟩

theorem makeDirectory_error {e : IoError} (h : fs.makeDirectory path = (.error e, after)) :
    after = fs := by
  simp only [makeDirectory] at h
  split at h <;> cases h <;> rfl

theorem makeDirectory_ok (hs : fs.Sound) (h : fs.makeDirectory path = (.ok (), after)) :
    Grows fs after ∧ LeadsToNew fs after path := by
  simp only [makeDirectory] at h
  split at h
  · next parent name slash hlocate =>
    obtain ⟨hp, hnone, n, rest, hsteps, hn, he, -⟩ := vacant_spec hs hlocate
    cases h
    have hlook (l : Location) : (fs.put (parent ++ [name]) (.directory [])).root.look l =
        if l = parent ++ [name] then some .directory else fs.root.look l :=
      Entry.look_put hp rfl (fun old ho => by simp [Entry.look_eq_none.mp hnone] at ho) l
    have hgrows : Grows fs (fs.put (parent ++ [name]) (.directory [])) := by
      refine ⟨rfl, fun l => ?_⟩
      rw [hlook]
      by_cases hl : l = parent ++ [name]
      · rw [if_pos hl, hl]
        exact .inr ⟨hnone, rfl⟩
      · rw [if_neg hl]
        exact .inl rfl
    have hnew := hlook (parent ++ [name])
    rw [if_pos rfl] at hnew
    obtain ⟨es, hes⟩ := Entry.look_eq_directory.mp hnew
    refine ⟨hgrows, parent ++ [name], .directory es, ?_, hnone, hnew, fun name' => ?_⟩
    · have hway := steps_keep (steps_through hsteps) hgrows.keepsWays
      exact find_eq_ok.mpr (locate_of_steps (accepted_of_locate hlocate)
        ((hway.tail (.down hn hnew)).trans (steps_isEnd he)) (.here hes))
    · rw [hlook, if_neg (by simp), Entry.look_below hnone]
  · cases h
  · cases h

theorem isDirectory_iff : fs.isDirectory path = true ↔
    ∃ l es, fs.find path = .ok (l, .directory es) := by
  rw [isDirectory]
  split
  · next l es h => simp [h]
  · next hne => simpa using fun l es h => hne l es h

/-- Where a path leads to something through a link at its end, the link is there. -/
theorem locate_present {l : Location} {e : Entry} (h : fs.find path = .ok (l, e)) :
    ∃ l' e', fs.locate false path = .ok (.present l' e') := by
  have h := find_eq_ok.mp h
  obtain ⟨last, hsteps, hstops⟩ := steps_of_locate h
  rw [locate_eq (accepted_of_locate h)]
  generalize fs.start path = r at hsteps
  induction hsteps using Relation.ReflTransGen.head_induction_on with
  | refl =>
    cases hstops with
    | here h => exact ⟨_, _, Stops.spot_eq (.here h)⟩
    | file hn hl => exact ⟨_, _, Stops.spot_eq (.file hn hl)⟩
    | link hn hl he hlast => cases hlast
  | head hstep _ ih =>
    cases hstep with
    | skip h => rwa [spot_skip h]
    | up => rwa [spot_up]
    | down hn hl => rwa [Step.spot_eq (.down hn hl)]
    | @link n here piece target rest hn hl ht hlast =>
      cases he : isEnd rest with
      | true => exact ⟨_, _, Stops.spot_eq (.link hn hl he rfl)⟩
      | false => rwa [Step.spot_eq (.link hn hl ht fun h => by rw [he] at h; cases h)]

theorem makeDirectories_of_isDirectory (h : fs.isDirectory path = true) :
    fs.makeDirectories path = (.ok (), fs) := by
  obtain ⟨l, es, hfind⟩ := isDirectory_iff.mp h
  obtain ⟨l', e', hpresent⟩ := locate_present hfind
  have hmake : fs.makeDirectory path = (.error .alreadyExists, fs) := by
    rw [makeDirectory, hpresent]
  have hne : path ≠ "" := (accepted_of_locate hpresent).nonempty
  obtain ⟨more, hlength⟩ : ∃ more, path.length = more + 1 :=
    Nat.exists_eq_succ_of_ne_zero fun h0 => hne (String.length_eq_zero_iff.mp h0)
  rw [makeDirectories, hlength, makeDirectoriesWithin, if_neg hne, hmake]
  simp [ensureDirectory, hmake, h]

theorem ensureDirectory_ok (hs : fs.Sound) (h : fs.ensureDirectory path = (.ok (), after)) :
    Grows fs after ∧ LeadsToNew fs after path ∨ after = fs ∧ fs.isDirectory path = true := by
  simp only [ensureDirectory] at h
  split at h
  · next fs' hmake => cases h; exact .inl (makeDirectory_ok hs hmake)
  · next e fs' hmake =>
    cases makeDirectory_error hmake
    split at h
    · next hdir => cases h; exact .inr ⟨rfl, hdir⟩
    · cases h

theorem ensureDirectory_grows (hs : fs.Sound) (path : String) :
    Grows fs (fs.ensureDirectory path).2 := by
  rw [ensureDirectory]
  split
  · next fs' hmake => exact (makeDirectory_ok hs hmake).1
  · next e fs' hmake =>
    cases makeDirectory_error hmake
    split <;> exact .refl fs

theorem makeDirectoriesWithin_grows (hs : fs.Sound) (bound : Nat) (path : String) :
    Grows fs (makeDirectoriesWithin bound path fs).2 := by
  induction bound generalizing path with
  | zero => exact .refl fs
  | succ more ih =>
    rw [makeDirectoriesWithin]
    split
    · exact .refl fs
    · split
      · next fs' parent hmake hparent =>
        cases makeDirectory_error hmake
        have hgrows := ih parent
        split
        · next fs'' hrest =>
          rw [hrest] at hgrows
          exact hgrows.trans (ensureDirectory_grows (hgrows.sound hs) path)
        · exact hgrows
      · exact ensureDirectory_grows hs path

theorem makeDirectories_grows (hs : fs.Sound) {done : Except IoError Unit}
    (h : fs.makeDirectories path = (done, after)) : Grows fs after := by
  have hgrows := makeDirectoriesWithin_grows hs path.length path
  rwa [show makeDirectoriesWithin path.length path fs = (done, after) from h] at hgrows

section

variable {root : Entry} {throughLast : Bool} {l : Location} {spot : Spot}

/-- Pieces without a step up do not leave an empty directory. -/
theorem spot_inEmpty (hempty : ∀ name, root.look (l ++ [name]) = none) {n : Nat}
    {ps : List String} (hdots : ".." ∉ ps)
    (h : Route.spot root throughLast ⟨n, l, ps⟩ = .ok spot) :
    (∃ e, spot = .present l e) ∨ ∃ name slash, spot = .vacant l name slash := by
  induction ps with
  | nil =>
    rw [spot_eq_follow, follow] at h
    split at h
    · cases h; exact .inl ⟨_, rfl⟩
    · cases h
  | cons piece rest ih =>
    rw [List.mem_cons, not_or] at hdots
    rcases isName_or piece with hskip | rfl | hn | hlong
    · exact ih hdots.2 ((spot_skip hskip ..).symm.trans h)
    · exact absurd rfl hdots.1
    · simp only [spot_name hn, hempty] at h
      split at h
      · cases h; exact .inr ⟨_, _, rfl⟩
      · cases h
    · rw [hlong] at h
      cases h

end

/-- Where the parent of a path is an empty directory, the path stays in there. -/
theorem locate_inEmpty {throughLast : Bool} {parent : String} {l : Location} {e : Entry}
    {spot : Spot} (hparent : Path.parent? path = some parent) (hdots : ".." ∉ Path.pieces path)
    (hfind : fs.find parent = .ok (l, e)) (hdir : fs.root.look l = some .directory)
    (hempty : ∀ name, fs.root.look (l ++ [name]) = none)
    (h : fs.locate throughLast path = .ok spot) :
    (∃ e, spot = .present l e) ∨ ∃ name slash, spot = .vacant l name slash := by
  have hfind := find_eq_ok.mp hfind
  obtain ⟨habs, front, behind, hpieces, hbehind, hfront⟩ :=
    Path.pieces_parent hparent (accepted_of_locate hfind).nonempty
  obtain ⟨last, hsteps, hstops⟩ := steps_of_locate hfind
  obtain ⟨m, rfl⟩ : ∃ m, last = ⟨m, l, []⟩ := by
    cases hstops with
    | here => exact ⟨_, rfl⟩
    | file hn hl => rw [hl] at hdir; cases hdir
    | link hn hl => rw [hl] at hdir; cases hdir
  have hspot : (fs.start path).spot fs.root throughLast =
      Route.spot fs.root throughLast ⟨m, l, behind⟩ := by
    have hsteps' : Steps fs.root throughLast ((fs.start parent).append behind) ⟨m, l, behind⟩ :=
      steps_append hsteps hbehind
    have hway := spot_eq_of_steps hsteps'
    simp only [Route.append, start, habs] at hway
    rw [← hway, start, hpieces]
    rcases hfront with hfront | ⟨rfl, hroot⟩
    · rw [hfront]
    · rw [hroot]
      exact (spot_skip (.inl rfl) ..).symm
  rw [locate_eq (accepted_of_locate h), hspot] at h
  exact spot_inEmpty hempty (fun hm => hdots (hpieces ▸ List.mem_append_right _ hm)) h

/-- Directories that were made are new and empty, unless none had to be made. -/
theorem makeDirectoriesWithin_ok (hs : fs.Sound) {bound : Nat} (hdots : ".." ∉ Path.pieces path)
    (h : makeDirectoriesWithin bound path fs = (.ok (), after)) :
    after = fs ∨ LeadsToNew fs after path := by
  induction bound generalizing path after with
  | zero => cases h; exact .inl rfl
  | succ more ih =>
    rw [makeDirectoriesWithin] at h
    split at h
    · cases h; exact .inl rfl
    · split at h
      · next fs' parent hmake hparent =>
        cases makeDirectory_error hmake
        split at h
        · next middle hrest =>
          have hgrows := makeDirectoriesWithin_grows hs more parent
          rw [hrest] at hgrows
          have hdots' : ".." ∉ Path.pieces parent := fun hm =>
            (Path.mem_pieces_parent hparent hm).elim (by decide) hdots
          rcases ensureDirectory_ok (hgrows.sound hs) h with
            ⟨-, l, e, hfind, hnone, hnew⟩ | ⟨rfl, hdir⟩
          · exact .inr ⟨l, e, hfind, hgrows.look_none hnone, hnew⟩
          · rcases ih hdots' hrest with rfl | ⟨l, e, hfind, hnone, hnew, hempty⟩
            · exact .inl rfl
            · obtain ⟨l', es, hl'⟩ := isDirectory_iff.mp hdir
              refine .inr ⟨l, .directory es, ?_, hnone, hnew, hempty⟩
              rcases locate_inEmpty hparent hdots hfind hnew hempty (find_eq_ok.mp hl') with
                ⟨e', he⟩ | ⟨name, slash, he⟩
              · cases he; exact hl'
              · cases he
        · next hfail => exact absurd h (hfail _)
      · rcases ensureDirectory_ok hs h with ⟨-, hnew⟩ | ⟨rfl, -⟩
        · exact .inr hnew
        · exact .inl rfl

end Stubsmith.FileSystem
