import Stubsmith.Files.Sources

namespace Stubsmith.FileSystem

/-- Names that lead down from an entry, which a path stands for, to another one. -/
inductive Descends (fs : FileSystem) :
    String → Location → Entry → List String → Location → Entry → Prop where
  | here {path : String} {location : Location} {e : Entry} :
      Descends fs path location e [] location e
  | down {path name : String} {here location last : Location} {es : List (String × Entry)}
      {e target found : Entry} {names : List String} (hmem : (name, e) ∈ es)
      (hentry : fs.resolveEntry (Path.join path name) (here ++ [name]) e = .ok (location, target))
      (hbelow : Descends fs (Path.join path name) location target names last found) :
      Descends fs path here (.directory es) (name :: names) last found

/-- The path that leads on by names from another one. -/
def spelled (path : String) (names : List String) : String :=
  names.foldl Path.join path

/-- A PHP file that names lead to from an entry, through no version-control directory, by the path
that leads there. -/
def PhpBelow (fs : FileSystem) (path : String) (here : Location) (e : Entry) (p : String) : Prop :=
  ∃ names name location contents,
    fs.Descends path here e (names ++ [name]) location (.file contents) ∧
      (∀ n ∈ names, n ∉ versionControlNames) ∧ Path.extension? name = some "php" ∧
      p = spelled path (names ++ [name])

/-- What a search finds at an entry by what it stands for. -/
def targetFiles (fs : FileSystem) (depth : Nat) (above : List (Location × String))
    (path name : String) (location : Location) : Entry → Except SearchError (List String)
  | .directory inner =>
    if versionControlNames.contains name then .ok []
    else fs.searchWithin depth above path location inner
  | .file _ => .ok (if Path.extension? name == some "php" then [path] else [])
  | .link _ => .ok []

/-- What a search finds at one entry of a directory. -/
def entryFiles (fs : FileSystem) (depth : Nat) (above : List (Location × String)) (path : String)
    (here : Location) (entry : String × Entry) : Except SearchError (List String) :=
  let below := Path.join path entry.1
  match fs.resolveEntry below (here ++ [entry.1]) entry.2 with
  | .error cause => .error cause
  | .ok (location, target) =>
    match cycle? ((here, path) :: above) entry.2 target location with
    | some ancestor => .error (.cycle ancestor below)
    | none => fs.targetFiles depth ((here, path) :: above) below entry.1 location target

/-- A PHP file that an entry of a directory stands for, or that is below it. -/
def PhpAt (fs : FileSystem) (path : String) (here : Location) (entry : String × Entry)
    (p : String) : Prop :=
  ∃ location target,
    fs.resolveEntry (Path.join path entry.1) (here ++ [entry.1]) entry.2 = .ok (location, target) ∧
      ((∃ contents, target = .file contents ∧ Path.extension? entry.1 = some "php" ∧
          p = Path.join path entry.1) ∨
        entry.1 ∉ versionControlNames ∧ fs.PhpBelow (Path.join path entry.1) location target p)

variable {fs : FileSystem} {depth : Nat} {above : List (Location × String)} {path p : String}
  {here : Location} {es : List (String × Entry)} {entry : String × Entry} {found : List String}

/-- Where a fold adds up what it gets from the members of a list, it gets something from all of
them. -/
theorem mem_foldlM_append {α β ε : Type} {f : α → Except ε (List β)} {l : List α}
    {start found : List β}
    (h : l.foldlM (fun found x => (f x).map (found ++ ·)) start = .ok found) :
    (∀ x ∈ l, ∃ more, f x = .ok more) ∧
      ∀ b, b ∈ found ↔ b ∈ start ∨ ∃ x ∈ l, ∃ more, f x = .ok more ∧ b ∈ more := by
  induction l generalizing start with
  | nil =>
    obtain rfl : start = found := Except.ok.inj h
    simp
  | cons x l ih =>
    rw [List.foldlM_cons] at h
    cases hx : f x with
    | error cause =>
      rw [hx] at h
      cases h
    | ok first =>
      rw [hx] at h
      obtain ⟨hall, hmem⟩ := ih h
      refine ⟨?_, ?_⟩
      · intro y hy
        rcases List.mem_cons.1 hy with rfl | hy
        · exact ⟨first, hx⟩
        · exact hall y hy
      · intro b
        rw [hmem, List.mem_append, or_assoc]
        simp [hx]

theorem foldlM_append_congr {α β ε : Type} {f g : α → Except ε (List β)} {l : List α}
    (h : ∀ x ∈ l, f x = g x) (start : List β) :
    l.foldlM (fun found x => (f x).map (found ++ ·)) start =
      l.foldlM (fun found x => (g x).map (found ++ ·)) start := by
  induction l generalizing start with
  | nil => rfl
  | cons x l ih =>
    rw [List.foldlM_cons, List.foldlM_cons, h x (by simp)]
    congr 1
    funext more
    exact ih (fun y hy => h y (by simp [hy])) more

theorem searchWithin_succ (fs : FileSystem) (depth : Nat) (above : List (Location × String))
    (path : String) (here : Location) (es : List (String × Entry)) :
    fs.searchWithin (depth + 1) above path here es =
      (es.mergeSort fun a b => a.1 ≤ b.1).foldlM
        (fun found entry => (fs.entryFiles depth above path here entry).map (found ++ ·)) [] := by
  rw [searchWithin]
  congr 1
  funext found entry
  obtain ⟨name, e⟩ := entry
  simp only [entryFiles]
  cases fs.resolveEntry (Path.join path name) (here ++ [name]) e with
  | error cause => rfl
  | ok resolved =>
    obtain ⟨location, target⟩ := resolved
    simp only [bind, Except.bind]
    cases cycle? ((here, path) :: above) e target location with
    | some ancestor => rfl
    | none =>
      cases target with
      | directory inner =>
        simp only [targetFiles]
        cases versionControlNames.contains name with
        | true => simp only [if_true, Except.map, List.append_nil]; rfl
        | false => rfl
      | file contents =>
        simp only [targetFiles]
        cases Path.extension? name == some "php" with
        | true => rfl
        | false => simp only [Bool.false_eq_true, if_false, Except.map, List.append_nil]; rfl
      | link target => simp only [targetFiles, Except.map, List.append_nil]; rfl

/-- A search comes to an end at an entry that leads somewhere, and not by a link to a directory that
it is in. -/
theorem entryFiles_eq_ok : fs.entryFiles depth above path here entry = .ok found ↔
    ∃ location target,
      fs.resolveEntry (Path.join path entry.1) (here ++ [entry.1]) entry.2 =
        .ok (location, target) ∧
      cycle? ((here, path) :: above) entry.2 target location = none ∧
      fs.targetFiles depth ((here, path) :: above) (Path.join path entry.1) entry.1 location
        target = .ok found := by
  simp only [entryFiles]
  cases hentry : fs.resolveEntry (Path.join path entry.1) (here ++ [entry.1]) entry.2 with
  | error cause => simp
  | ok resolved =>
    obtain ⟨location, target⟩ := resolved
    cases hcycle : cycle? ((here, path) :: above) entry.2 target location with
    | some ancestor => simp [and_assoc, hcycle]
    | none => simp [and_assoc, hcycle]

theorem phpBelow_directory :
    fs.PhpBelow path here (.directory es) p ↔ ∃ entry ∈ es, fs.PhpAt path here entry p := by
  constructor
  · intro h
    obtain ⟨names, name, location, contents, hway, hnames, hext, rfl⟩ := h
    cases names with
    | nil =>
      cases hway with
      | down hmem hentry hbelow =>
        cases hbelow
        exact ⟨_, hmem, _, _, hentry, .inl ⟨_, rfl, hext, rfl⟩⟩
    | cons first names =>
      cases hway with
      | down hmem hentry hbelow =>
        refine ⟨_, hmem, _, _, hentry, .inr ⟨hnames first (by simp), ?_⟩⟩
        exact ⟨names, name, location, contents, hbelow, fun n hn => hnames n (by simp [hn]), hext,
          rfl⟩
  · intro h
    obtain ⟨⟨name, e⟩, hmem, location, target, hentry, hphp⟩ := h
    rcases hphp with ⟨contents, rfl, hext, rfl⟩ | ⟨hname, hbelow⟩
    · exact ⟨[], name, location, contents, .down hmem hentry .here, by simp, hext, rfl⟩
    · obtain ⟨names, last, location, contents, hway, hnames, hext, rfl⟩ := hbelow
      refine ⟨name :: names, last, location, contents, .down hmem hentry hway, ?_, hext, rfl⟩
      intro n hn
      rcases List.mem_cons.1 hn with rfl | hn
      · exact hname
      · exact hnames n hn

/-- Nothing is below an entry with nothing in it. -/
theorem not_phpBelow {e : Entry} (h : e.entries = []) : ¬fs.PhpBelow path here e p := by
  rintro ⟨names, name, location, contents, hway, -⟩
  have hne : names ++ [name] ≠ [] := by simp
  generalize names ++ [name] = way at hway hne
  cases hway with
  | here => exact hne rfl
  | down hmem =>
    obtain rfl := h
    cases hmem

theorem phpAt_iff {location : Location} {target : Entry}
    (hentry : fs.resolveEntry (Path.join path entry.1) (here ++ [entry.1]) entry.2 =
      .ok (location, target)) :
    fs.PhpAt path here entry p ↔
      (∃ contents, target = .file contents ∧ Path.extension? entry.1 = some "php" ∧
          p = Path.join path entry.1) ∨
        entry.1 ∉ versionControlNames ∧ fs.PhpBelow (Path.join path entry.1) location target p := by
  constructor
  · intro h
    obtain ⟨location', target', hentry', h⟩ := h
    obtain ⟨rfl, rfl⟩ := Prod.mk.inj (Except.ok.inj (hentry.symm.trans hentry'))
    exact h
  · intro h
    exact ⟨location, target, hentry, h⟩

/-- What a search finds at an entry, if that is what it finds further below. -/
theorem mem_entryFiles
    (hbelow : ∀ {above path here es found}, fs.searchWithin depth above path here es = .ok found →
      (p ∈ found ↔ fs.PhpBelow path here (.directory es) p))
    (h : fs.entryFiles depth above path here entry = .ok found) :
    p ∈ found ↔ fs.PhpAt path here entry p := by
  obtain ⟨location, target, hentry, -, hfiles⟩ := entryFiles_eq_ok.1 h
  rw [phpAt_iff hentry]
  cases target with
  | directory inner =>
    rw [targetFiles] at hfiles
    by_cases hname : entry.1 ∈ versionControlNames
    · obtain rfl : [] = found := by simpa [hname] using hfiles
      simp [hname]
    · rw [if_neg (by simpa using hname)] at hfiles
      simp [hname, hbelow hfiles]
  | file contents =>
    have hnone : ¬fs.PhpBelow (Path.join path entry.1) location (.file contents) p :=
      not_phpBelow rfl
    obtain rfl := Except.ok.inj hfiles
    by_cases hext : Path.extension? entry.1 = some "php" <;> simp [hext, hnone]
  | link target =>
    have hnone : ¬fs.PhpBelow (Path.join path entry.1) location (.link target) p :=
      not_phpBelow rfl
    obtain rfl := Except.ok.inj hfiles
    simp [hnone]

/-- A search that comes to an end has found the PHP files below the directory. -/
theorem mem_searchWithin (h : fs.searchWithin depth above path here es = .ok found) :
    p ∈ found ↔ fs.PhpBelow path here (.directory es) p := by
  induction depth generalizing above path here es found with
  | zero => simp [searchWithin] at h
  | succ depth ih =>
    rw [searchWithin_succ] at h
    obtain ⟨hall, hmem⟩ := mem_foldlM_append h
    have hsorted : ∀ x, x ∈ es.mergeSort (fun a b => a.1 ≤ b.1) ↔ x ∈ es := fun x =>
      (List.mergeSort_perm es _).mem_iff
    rw [hmem, phpBelow_directory]
    constructor
    · intro h
      obtain ⟨entry, hentry, more, hmore, hp⟩ := h.resolve_left (by simp)
      exact ⟨entry, (hsorted entry).1 hentry, (mem_entryFiles ih hmore).1 hp⟩
    · intro h
      obtain ⟨entry, hentry, hp⟩ := h
      obtain ⟨more, hmore⟩ := hall entry ((hsorted entry).2 hentry)
      exact .inr ⟨entry, (hsorted entry).2 hentry, more, hmore, (mem_entryFiles ih hmore).2 hp⟩

end Stubsmith.FileSystem
