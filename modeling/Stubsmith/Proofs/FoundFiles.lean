import Stubsmith.Proofs.Descent
import Stubsmith.Proofs.PathOrder

namespace Stubsmith

/-- Whether a path is matched by one of some patterns. -/
def matchesAny (patterns : List String) (path : String) : Bool :=
  patterns.any fun pattern =>
    match Glob.read pattern with
    | .ok tokens => Glob.matchesPath tokens path
    | .error _ => false

namespace FileSystem

/-- A PHP file below a directory that a path leads to. -/
def PhpFile (fs : FileSystem) (source p : String) : Prop :=
  ∃ here e, fs.find source = .ok (here, e) ∧ fs.PhpBelow source here e p

/-- What a search finds below a source. -/
def below (fs : FileSystem) (source : String) : List String :=
  match fs.search source with
  | .ok paths => paths
  | .error _ => []

/-- Paths that list the PHP files below some sources, without those that are excluded. -/
structure Lists (fs : FileSystem) (excluded : String → Bool) (sources listed : List String) :
    Prop where
  increasing : listed.Pairwise (Path.before · ·)
  only : ∀ p ∈ listed, excluded p = false ∧ ∃ s ∈ sources, fs.PhpFile s p
  all : ∀ s ∈ sources, ∀ p, fs.PhpFile s p → excluded p = false → ∃ q ∈ listed, Path.sameParts q p

end FileSystem

open FileSystem

variable {fs : FileSystem} {excluded excluded' : String → Bool} {source p : String}
  {patterns sources sources' listed listed' : List String} {found : Found}

theorem readPatterns_eq (h : ∀ pattern ∈ patterns, (Glob.read pattern).isOk) :
    ∃ tokens, readPatterns patterns = .ok tokens ∧ excludes tokens = matchesAny patterns := by
  induction patterns with
  | nil => exact ⟨[], rfl, rfl⟩
  | cons pattern patterns ih =>
    obtain ⟨tokens, htokens, hexcludes⟩ := ih fun pattern h' => h pattern (by simp [h'])
    cases hread : Glob.read pattern with
    | error cause =>
      have hok := h pattern (by simp)
      rw [hread] at hok
      cases hok
    | ok first =>
      refine ⟨first :: tokens, ?_, ?_⟩
      · rw [readPatterns] at htokens ⊢
        rw [List.mapM_cons, hread, htokens]
        rfl
      · funext path
        have hrest := congrFun hexcludes path
        rw [excludes, matchesAny] at hrest ⊢
        rw [List.any_cons, List.any_cons, hread, hrest]

theorem search_eq (hwalk : (fs.search source).isOk) : fs.search source = .ok (fs.below source) := by
  rw [below]
  cases h : fs.search source with
  | ok paths => rfl
  | error cause =>
    rw [h] at hwalk
    cases hwalk

theorem mem_below (hwalk : (fs.search source).isOk) :
    p ∈ fs.below source ↔ fs.PhpFile source p := by
  have hsearch := search_eq hwalk
  have hfile {here : Location} {e : Entry} (hfind : fs.find source = .ok (here, e)) :
      fs.PhpFile source p ↔ fs.PhpBelow source here e p := by
    constructor
    · intro h
      obtain ⟨here', e', hfind', h⟩ := h
      obtain ⟨rfl, rfl⟩ := Prod.mk.inj (Except.ok.inj (hfind.symm.trans hfind'))
      exact h
    · intro h
      exact ⟨here, e, hfind, h⟩
  rw [search] at hsearch
  cases hfind : fs.find source with
  | error cause =>
    rw [hfind] at hsearch
    cases hsearch
  | ok there =>
    obtain ⟨here, e⟩ := there
    rw [hfile hfind]
    simp only [hfind] at hsearch
    cases e with
    | directory es => exact mem_searchWithin hsearch
    | file contents =>
      rw [← Except.ok.inj hsearch]
      simp [not_phpBelow (show (Entry.file contents).entries = [] from rfl)]
    | link target =>
      rw [← Except.ok.inj hsearch]
      simp [not_phpBelow (show (Entry.link target).entries = [] from rfl)]

theorem isDirectory_of_phpFile (h : fs.PhpFile source p) : fs.isDirectory source := by
  obtain ⟨here, e, hfind, hbelow⟩ := h
  cases e with
  | directory es => rw [isDirectory, hfind]
  | file contents => exact absurd hbelow (not_phpBelow rfl)
  | link target => exact absurd hbelow (not_phpBelow rfl)

theorem not_isDirectory_of_isFile (h : fs.isFile source) : fs.isDirectory source = false := by
  rw [isFile] at h
  rw [isDirectory]
  split at h <;> simp_all

theorem addSource_directory (hdir : fs.isDirectory source) (hwalk : (fs.search source).isOk) :
    found.addSource fs excluded source =
      .ok { found with below := found.below ++ (fs.below source).filter (!excluded ·) } := by
  rw [Found.addSource, if_pos hdir, search_eq hwalk]

theorem addSource_file (hfile : fs.isFile source) :
    found.addSource fs excluded source =
      .ok { found with named := found.named ++ [source].filter (!excluded ·) } := by
  rw [Found.addSource, if_neg (by simp [not_isDirectory_of_isFile hfile]), if_pos hfile]
  cases h : excluded source <;> simp [h]

theorem foldlM_addSource (hsources : ∀ s ∈ sources, fs.isDirectory s ∨ fs.isFile s)
    (hwalks : ∀ s ∈ sources, fs.isDirectory s → (fs.search s).isOk) (found : Found) :
    sources.foldlM (Found.addSource fs excluded) found =
      .ok ⟨found.below ++
          (sources.filter fs.isDirectory).flatMap fun s => (fs.below s).filter (!excluded ·),
        found.named ++ (sources.filter fs.isFile).filter (!excluded ·)⟩ := by
  induction sources generalizing found with
  | nil => simp [pure, Except.pure]
  | cons s sources ih =>
    have hrest := ih (fun s' h => hsources s' (by simp [h])) (fun s' h => hwalks s' (by simp [h]))
    rw [List.foldlM_cons]
    rcases hsources s (by simp) with hdir | hfile
    · have hnot : fs.isFile s = false := by
        by_contra hfile
        have := not_isDirectory_of_isFile ((Bool.not_eq_false _).mp hfile)
        simp [hdir] at this
      rw [addSource_directory hdir (hwalks s (by simp) hdir)]
      refine (hrest _).trans ?_
      simp [hdir, hnot]
    · rw [addSource_file hfile]
      refine (hrest _).trans ?_
      cases h : excluded s <;> simp [hfile, not_isDirectory_of_isFile hfile, h]

/-- What is found below directories, put into canonical form, lists the PHP files below them. -/
theorem lists_canonicalPaths (hwalks : ∀ s ∈ sources, fs.isDirectory s → (fs.search s).isOk) :
    fs.Lists excluded sources (canonicalPaths
      ((sources.filter fs.isDirectory).flatMap fun s => (fs.below s).filter (!excluded ·))) := by
  have hmem (p : String) :
      (p ∈ (sources.filter fs.isDirectory).flatMap fun s => (fs.below s).filter (!excluded ·)) ↔
        excluded p = false ∧ ∃ s ∈ sources, fs.PhpFile s p := by
    simp only [List.mem_flatMap, List.mem_filter, Bool.not_eq_true']
    constructor
    · intro h
      obtain ⟨s, ⟨hs, hdir⟩, hp, hkept⟩ := h
      exact ⟨hkept, s, hs, (mem_below (hwalks s hs hdir)).1 hp⟩
    · intro h
      obtain ⟨hkept, s, hs, hp⟩ := h
      have hdir := isDirectory_of_phpFile hp
      exact ⟨s, ⟨hs, hdir⟩, (mem_below (hwalks s hs hdir)).2 hp, hkept⟩
  refine ⟨pairwise_canonicalPaths _, ?_, ?_⟩
  · intro p hp
    exact (hmem p).1 (mem_of_mem_canonicalPaths hp)
  · intro s hs p hp hkept
    obtain ⟨q, hq, heq⟩ := exists_mem_canonicalPaths ((hmem p).2 ⟨hkept, s, hs, hp⟩)
    exact ⟨q, hq, Path.sameParts_iff.2 heq⟩

/-- With more directories and fewer excludes the same paths are listed and maybe others. -/
theorem FileSystem.Lists.sublist (h : fs.Lists excluded sources listed)
    (h' : fs.Lists excluded' sources' listed')
    (hsources : ∀ s ∈ sources, fs.isDirectory s → s ∈ sources')
    (hexcluded : ∀ p, excluded p = false → excluded' p = false) :
    (listed.map Path.parts).Sublist (listed'.map Path.parts) := by
  apply parts_sublist h.increasing h'.increasing
  intro p hp
  obtain ⟨hkept, s, hs, hfile⟩ := h.only p hp
  obtain ⟨q, hq, hsame⟩ :=
    h'.all s (hsources s hs (isDirectory_of_phpFile hfile)) p hfile (hexcluded p hkept)
  exact ⟨q, hq, Path.sameParts_iff.1 hsame⟩

theorem sources_eq (hpatterns : ∀ pattern ∈ patterns, (Glob.read pattern).isOk)
    (hsources : ∀ s ∈ sources, fs.isDirectory s ∨ fs.isFile s)
    (hwalks : ∀ s ∈ sources, fs.isDirectory s → (fs.search s).isOk) :
    ∃ listed, fs.Lists (matchesAny patterns) sources listed ∧
      fs.sources patterns sources =
        .ok (listed ++ (sources.filter fs.isFile).filter (!matchesAny patterns ·)) := by
  obtain ⟨tokens, htokens, hexcludes⟩ := readPatterns_eq hpatterns
  refine ⟨_, lists_canonicalPaths hwalks, ?_⟩
  have hfold : sources.foldlM (Found.addSource fs (matchesAny patterns)) {} = _ :=
    foldlM_addSource hsources hwalks {}
  rw [FileSystem.sources, htokens]
  change findSources fs (excludes tokens) sources = _
  rw [hexcludes, findSources, hfold]
  rfl

theorem matchesAny_of_subset {patterns' : List String} (h : ∀ q ∈ patterns, q ∈ patterns')
    (hp : matchesAny patterns' p = false) : matchesAny patterns p = false := by
  rw [matchesAny, List.any_eq_false] at *
  intro q hq
  exact hp q (h q hq)

theorem filter_isFile (fs : FileSystem) (sources : List String) :
    sources.filter fs.isFile = (sources.filter (!fs.isDirectory ·)).filter fs.isFile := by
  rw [List.filter_filter]
  apply List.filter_congr
  intro s _
  cases h : fs.isFile s with
  | false => rfl
  | true => simp [not_isDirectory_of_isFile h]

/-- The files that sources stand for: the PHP files below the directories among them, in the order
of paths and each once, and then the files among them as they are given, all without those that a
pattern matches. As paths they stay the same however the directories and the patterns are arranged
and repeated, and more patterns only leave out some of them. -/
theorem sources_canonical (hpatterns : ∀ pattern ∈ patterns, (Glob.read pattern).isOk)
    (hsources : ∀ s ∈ sources, fs.isDirectory s ∨ fs.isFile s)
    (hwalks : ∀ s ∈ sources, fs.isDirectory s → (fs.search s).isOk) :
    ∃ listed files, fs.sources patterns sources = .ok files ∧
      files = listed ++ sources.filter (fun s => fs.isFile s && !matchesAny patterns s) ∧
      fs.Lists (matchesAny patterns) sources listed ∧
      (∀ patterns' sources', (∀ q, q ∈ patterns' ↔ q ∈ patterns) →
        (∀ s, fs.isDirectory s → (s ∈ sources' ↔ s ∈ sources)) →
        sources'.filter (!fs.isDirectory ·) = sources.filter (!fs.isDirectory ·) →
        ∃ files', fs.sources patterns' sources' = .ok files' ∧
          files'.map Path.parts = files.map Path.parts) ∧
      ∀ patterns', (∀ q ∈ patterns', (Glob.read q).isOk) → (∀ q ∈ patterns, q ∈ patterns') →
        ∃ files', fs.sources patterns' sources = .ok files' ∧
          (files'.map Path.parts).Sublist (files.map Path.parts) := by
  obtain ⟨listed, hlisted, hfiles⟩ := sources_eq hpatterns hsources hwalks
  refine ⟨listed, _, hfiles, by simp [List.filter_filter, Bool.and_comm], hlisted, ?_, ?_⟩
  · intro patterns' sources' hsame hdirs hothers
    have hsources' : ∀ s ∈ sources', fs.isDirectory s ∨ fs.isFile s := by
      intro s hs
      by_cases hdir : fs.isDirectory s
      · exact .inl hdir
      have hother : s ∈ sources'.filter (!fs.isDirectory ·) := by simp [hs, hdir]
      rw [hothers] at hother
      exact hsources s (List.mem_of_mem_filter hother)
    obtain ⟨listed', hlisted', hfiles'⟩ := sources_eq
      (fun q hq => hpatterns q ((hsame q).1 hq)) hsources'
      (fun s hs hdir => hwalks s ((hdirs s hdir).1 hs) hdir)
    have hmatches : matchesAny patterns' = matchesAny patterns := by
      funext p
      rw [Bool.eq_iff_iff, ← not_iff_not, Bool.not_eq_true, Bool.not_eq_true]
      exact ⟨matchesAny_of_subset fun q => (hsame q).2, matchesAny_of_subset fun q => (hsame q).1⟩
    rw [hmatches] at hlisted' hfiles'
    have hparts : listed'.map Path.parts = listed.map Path.parts :=
      (hlisted'.sublist hlisted (fun s hs hdir => (hdirs s hdir).1 hs) fun _ h => h).antisymm
        (hlisted.sublist hlisted' (fun s hs hdir => (hdirs s hdir).2 hs) fun _ h => h)
    refine ⟨_, hfiles', ?_⟩
    rw [filter_isFile, hothers, ← filter_isFile, List.map_append, List.map_append, hparts]
  · intro patterns' hpatterns' hmore
    obtain ⟨listed', hlisted', hfiles'⟩ := sources_eq hpatterns' hsources hwalks
    refine ⟨_, hfiles', ?_⟩
    rw [List.map_append, List.map_append]
    apply List.Sublist.append
    · exact hlisted'.sublist hlisted (fun s hs _ => hs) fun p => matchesAny_of_subset hmore
    · apply List.Sublist.map
      apply List.monotone_filter_right
      intro s hs
      rw [Bool.not_eq_true'] at hs ⊢
      exact matchesAny_of_subset hmore hs

/-- A directory with one of version control in it, two PHP files, one of them further down, and a
file that is none. -/
def nestedFiles : FileSystem where
  root := .directory [("src", .directory
    [(".git", .directory [("hook.php", .file .empty)]),
      ("a.php", .file .empty),
      ("lib", .directory [("b.php", .file .empty)]),
      ("notes.txt", .file .empty)])]

theorem search_nestedFiles : nestedFiles.search "src" = .ok ["src/a.php", "src/lib/b.php"] := by
  have hsorted :
      [(".git", Entry.directory [("hook.php", .file .empty)]), ("a.php", .file .empty),
        ("lib", .directory [("b.php", .file .empty)]), ("notes.txt", .file .empty)].Pairwise
        (fun a b => decide (a.1 ≤ b.1)) := by
    decide
  have hsearch : nestedFiles.search "src" = nestedFiles.searchWithin 5 [] "src" ["src"] _ := rfl
  rw [hsearch, searchWithin_succ, List.mergeSort_of_pairwise hsorted]
  decide +kernel

/-- A directory after one that is below it, between a file that is given twice. -/
def overlappingSources : List String :=
  ["src/notes.txt", "src/lib", "src", "src/notes.txt"]

theorem sources_overlappingSources :
    (∀ pattern ∈ ["**/a.php"], (Glob.read pattern).isOk) ∧
    (∀ s ∈ overlappingSources, nestedFiles.isDirectory s ∨ nestedFiles.isFile s) ∧
    (∀ s ∈ overlappingSources, nestedFiles.isDirectory s → (nestedFiles.search s).isOk) ∧
    ∃ listed files, nestedFiles.sources ["**/a.php"] overlappingSources = .ok files ∧
      files = listed ++ ["src/notes.txt", "src/notes.txt"] ∧
      nestedFiles.Lists (matchesAny ["**/a.php"]) overlappingSources listed ∧
      ∃ files', nestedFiles.sources ["**/a.php", "**/a.php"] ("src" :: overlappingSources) =
          .ok files' ∧
        files'.map Path.parts = files.map Path.parts := by
  have hpatterns : ∀ pattern ∈ ["**/a.php"], (Glob.read pattern).isOk := by decide +kernel
  have hsources : ∀ s ∈ overlappingSources, nestedFiles.isDirectory s ∨ nestedFiles.isFile s := by
    decide +kernel
  have hwalks : ∀ s ∈ overlappingSources, nestedFiles.isDirectory s →
      (nestedFiles.search s).isOk := by
    have hsrc : (nestedFiles.search "src").isOk := by
      rw [search_nestedFiles]
      rfl
    have hlib : (nestedFiles.search "src/lib").isOk := by decide +kernel
    have hnotes : nestedFiles.isDirectory "src/notes.txt" = false := by decide +kernel
    simp [overlappingSources, hsrc, hlib, hnotes]
  have hnamed : overlappingSources.filter
      (fun s => nestedFiles.isFile s && !matchesAny ["**/a.php"] s) =
      ["src/notes.txt", "src/notes.txt"] := by
    decide +kernel
  refine ⟨hpatterns, hsources, hwalks, ?_⟩
  obtain ⟨listed, files, hfiles, heq, hlisted, hsame, -⟩ :=
    sources_canonical hpatterns hsources hwalks
  rw [hnamed] at heq
  refine ⟨listed, files, hfiles, heq, hlisted, hsame _ _ (by simp) ?_ (by decide +kernel)⟩
  intro s _
  grind [overlappingSources]

end Stubsmith
