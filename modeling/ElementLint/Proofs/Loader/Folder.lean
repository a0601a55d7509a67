import ElementLint.Loader.Folder
import ElementLint.Proofs.Loader.Path

/-!
# Reading below a folder

A walk that never goes up depends on the entry that it starts from, and on nothing around it
(`Folder.walk_inside`). The path that a `FolderLoader` asks for leads to its folder first and then
along such a walk (`Disk.place_join`). So what the loader answers depends on what its folder holds
and on the names in the URL, and a URL that leads out is refused (`FolderLoader.reads_below_root`).
-/

namespace ElementLint

/-- What is read from an entry under a path that asks for a folder. -/
def FolderEntry.asFolder : FolderEntry → Except FileFailure String
  | .file _ => .error .notFolder
  | .folder _ => .error .isFolder

/-- An entry that an idle piece can follow. -/
def FolderEntry.onlyFolder : FolderEntry → Except FileFailure FolderEntry
  | .file _ => .error .notFolder
  | .folder entries => .ok (.folder entries)

/-! ### Walks -/

namespace Folder

variable {around : List Folder} {entry : FolderEntry} {piece : String} {path other : List String}

theorem walk_idle (hidle : Path.isIdle piece = true) (hpath : path ≠ []) :
    walk around entry (piece :: path) = walk around entry path := by
  cases entry with
  | file bytes =>
    obtain ⟨next, rest, rfl⟩ := List.exists_cons_of_ne_nil hpath
    rw [walk, walk]
  | folder entries => rw [walk, if_pos hidle]

theorem walk_idle_last (hidle : Path.isIdle piece = true) :
    walk around entry [piece] = entry.onlyFolder := by
  cases entry with
  | file bytes => rfl
  | folder entries => rw [walk, if_pos hidle, walk, FolderEntry.onlyFolder]

/-- What holds of two walks from every entry holds of them behind a common piece. -/
theorem walk_cons_bind {next : FolderEntry → Except FileFailure FolderEntry}
    (h : ∀ around entry, walk around entry path = (walk around entry other).bind next)
    (around : List Folder) (entry : FolderEntry) :
    walk around entry (piece :: path) = (walk around entry (piece :: other)).bind next := by
  cases entry with
  | file bytes => rfl
  | folder entries =>
    rw [walk, walk]
    split
    · exact h _ _
    · split
      · exact h _ _
      · split
        · rfl
        · split
          · rfl
          · exact h _ _

theorem walk_cons_congr
    (h : ∀ around entry, walk around entry path = walk around entry other)
    (around : List Folder) (entry : FolderEntry) :
    walk around entry (piece :: path) = walk around entry (piece :: other) := by
  have hok : ∀ answer : Except FileFailure FolderEntry, answer.bind .ok = answer := by
    intro answer
    cases answer <;> rfl
  rw [← hok (walk around entry (piece :: other))]
  exact walk_cons_bind (fun around entry => by rw [hok, h]) around entry

theorem walk_append_congr
    (h : ∀ around entry, walk around entry path = walk around entry other) (before : List String)
    (around : List Folder) (entry : FolderEntry) :
    walk around entry (before ++ path) = walk around entry (before ++ other) := by
  induction before generalizing around entry with
  | nil => exact h around entry
  | cons piece before ih => exact walk_cons_congr ih around entry

/-- A walk that does not go up does not depend on what is around the entry that it starts from. -/
theorem walk_inside (h : ".." ∉ path) (around others : List Folder) (entry : FolderEntry) :
    walk around entry path = walk others entry path := by
  induction path generalizing around others entry with
  | nil => rfl
  | cons piece path ih =>
    rw [List.mem_cons, not_or] at h
    cases entry with
    | file bytes => rfl
    | folder entries =>
      -- only a step up would look at what is around
      rw [walk, walk, if_neg (Ne.symm h.1), if_neg (Ne.symm h.1)]
      split
      · exact ih h.2 _ _ _
      · split
        · rfl
        · split
          · rfl
          · exact ih h.2 _ _ _

/-- A walk that does not go up starts afresh from what the walk before it leads to. -/
theorem walk_append (h : ".." ∉ path) (before : List String) (around : List Folder)
    (entry : FolderEntry) :
    walk around entry (before ++ path) =
      (walk around entry before).bind fun middle => walk [] middle path := by
  induction before generalizing around entry with
  | nil => exact walk_inside h around [] entry
  | cons piece before ih => exact walk_cons_bind ih around entry

/-- Idle pieces before a name do not count. -/
theorem walk_filter (hlast : ∀ piece ∈ path.getLast?, Path.isIdle piece = false)
    (around : List Folder) (entry : FolderEntry) :
    walk around entry path = walk around entry (path.filter (!Path.isIdle ·)) := by
  induction path generalizing around entry with
  | nil => rfl
  | cons piece path ih =>
    cases path with
    | nil => simp [hlast piece rfl]
    | cons next rest =>
      rw [List.getLast?_cons_cons] at hlast
      -- an idle piece can go, since the piece after it asks for a folder as well
      by_cases hidle : Path.isIdle piece = true
      · rw [walk_idle hidle (List.cons_ne_nil _ _), ih hlast]
        simp [hidle]
      · rw [List.filter_cons_of_pos (by simp [hidle])]
        exact walk_cons_congr (ih hlast) around entry

/-- A walk that ends with an idle piece leads to the same entry as without any, if this is a
folder. -/
theorem walk_filter_of_idle (hlast : ∃ piece ∈ path.getLast?, Path.isIdle piece = true)
    (around : List Folder) (entry : FolderEntry) :
    walk around entry path =
      (walk around entry (path.filter (!Path.isIdle ·))).bind FolderEntry.onlyFolder := by
  induction path generalizing around entry with
  | nil => simp at hlast
  | cons piece path ih =>
    cases path with
    | nil =>
      have hidle : Path.isIdle piece = true := by simpa using hlast
      rw [walk_idle_last hidle, List.filter_cons_of_neg (by simp [hidle])]
      rfl
    | cons next rest =>
      rw [List.getLast?_cons_cons] at hlast
      by_cases hidle : Path.isIdle piece = true
      · rw [walk_idle hidle (List.cons_ne_nil _ _), ih hlast]
        simp [hidle]
      · rw [List.filter_cons_of_pos (by simp [hidle])]
        exact walk_cons_bind (ih hlast) around entry

/-- No walk finds that a name leads out of a folder. -/
theorem walk_ne_outsideRoot (path : List String) (around : List Folder) (entry : FolderEntry) :
    walk around entry path ≠ .error .outsideRoot := by
  fun_induction walk around entry path <;> simp_all

/-- Along the pieces of a path, what is read depends on its names and on what it asks for. -/
theorem walk_pieces_bind_text (path : String) (around : List Folder) (entry : FolderEntry) :
    (walk around entry (Path.pieces path)).bind FolderEntry.text =
      (walk around entry (Path.pieces (Path.plain path))).bind
        (if Path.AsksForFolder path then FolderEntry.asFolder else FolderEntry.text) := by
  have hplain := Path.pieces_plain path
  by_cases hasks : Path.AsksForFolder path
  · rw [if_pos hasks, walk_filter_of_idle ((Path.asksForFolder_iff path).1 hasks), hplain]
    split
    · -- without a name the walk stays at the entry, and the plain path asks for a folder as well
      next hnone =>
      rw [hnone, walk_idle_last rfl, walk]
      cases entry <;> rfl
    · generalize walk around entry _ = answer
      rcases answer with failure | (bytes | entries) <;> rfl
  · have hlast := Path.not_isIdle_getLast? hasks
    -- the last piece is a name
    have hsome : (Path.pieces path).filter (!Path.isIdle ·) ≠ [] := by
      have hmem := List.getLast?_eq_some_getLast (Path.pieces_ne_nil path)
      intro hnone
      have hidle := List.filter_eq_nil_iff.1 hnone _ (List.mem_of_getLast? hmem)
      simp [hlast _ hmem] at hidle
    rw [if_neg hasks, hplain, if_neg hsome, walk_filter hlast]

end Folder

/-! ### Paths below a folder -/

namespace Disk

variable {root url : String}

/-- A path that does not lead out is walked from what the path before it leads to. -/
theorem place_join (disk : Disk) (root : String) (h : ¬ Path.LeadsOut url) :
    disk.place (Path.join root url) =
      (disk.place root).bind fun entry => Folder.walk [] entry (Path.pieces url) := by
  have hpieces : ∀ around entry, Folder.walk around entry (Path.pieces (Path.join root url)) =
      Folder.walk around entry (Path.pieces root ++ Path.pieces url) := by
    obtain ⟨before, hjoin, hroot⟩ := Path.exists_pieces_join root (Path.isAbsolute_eq_false h)
    rw [hjoin]
    rcases hroot with hroot | hroot
    · simp [hroot]
    · -- the empty piece at the end of the first path is one before the second
      rw [hroot, List.append_assoc, List.singleton_append]
      refine Folder.walk_append_congr (fun around entry => ?_) before
      exact (Folder.walk_idle rfl (Path.pieces_ne_nil url)).symm
  have hstart := Path.isAbsolute_join root (Path.isAbsolute_eq_false h)
  rw [place, place, hstart, Folder.walk_append_congr hpieces, ← List.append_assoc,
    Folder.walk_append (Path.above_not_mem h)]

/-- What a program finds under a path depends on what the path leads to. -/
theorem find_congr {first second : Disk} {path : String}
    (h : first.place path = second.place path) : first.find path = second.find path := by
  rw [find, find, h]

/-- A path that a program may use is walked, and any other fails. -/
theorem find_eq_place_or (disk : Disk) (path : String) :
    disk.find path = disk.place path ∨
      ∃ failure, failure ≠ .outsideRoot ∧ disk.find path = .error failure := by
  rw [find]
  split
  · exact .inr ⟨.nulInName, by simp, rfl⟩
  · split
    · exact .inr ⟨.missing, by simp, rfl⟩
    · split
      · exact .inr ⟨.nameTooLong, by simp, rfl⟩
      · exact .inl rfl

theorem read_ne_outsideRoot (disk : Disk) (path : String) :
    disk.read path ≠ .error .outsideRoot := by
  have htext : ∀ entry, FolderEntry.text entry ≠ .error .outsideRoot := by
    intro entry
    cases entry with
    | folder entries => simp [FolderEntry.text]
    | file bytes =>
      rw [FolderEntry.text]
      split <;> simp
  rw [read]
  rcases disk.find_eq_place_or path with hplace | ⟨failure, hne, hfailure⟩
  · rw [hplace]
    cases hfound : disk.place path with
    | ok entry => exact htext entry
    | error failure =>
      have hne : failure ≠ .outsideRoot := fun heq =>
        Folder.walk_ne_outsideRoot _ _ _ (heq ▸ hfound)
      simpa [Except.bind] using hne
  · rw [hfailure]
    simpa [Except.bind] using hne

/-- What is read under a path depends on its names and on what it asks for. -/
theorem read_join (disk : Disk) (h : ¬ Path.LeadsOut url) (hne : Path.join root url ≠ "")
    (hsize : (Path.join root url).utf8ByteSize < pathLimit)
    (hplain : (Path.join root (Path.plain url)).utf8ByteSize < pathLimit) :
    disk.read (Path.join root url) =
      (disk.find (Path.join root (Path.plain url))).bind
        (if Path.AsksForFolder url then FolderEntry.asFolder else FolderEntry.text) := by
  have hinside := Path.not_leadsOut_plain h
  -- no idle piece holds the character, so both paths pass the checks before the walk or none does
  have hnul : (Path.join root (Path.plain url)).toList.contains '\x00' =
      (Path.join root url).toList.contains '\x00' := by
    rw [Bool.eq_iff_iff, List.contains_iff_mem, List.contains_iff_mem,
      Path.mem_join_iff (by decide) (Path.isAbsolute_eq_false hinside),
      Path.mem_join_iff (by decide) (Path.isAbsolute_eq_false h),
      Path.mem_plain_iff (by decide) (by decide)]
  have hneplain := Path.join_ne_empty root (Path.plain_ne_empty url)
  rw [read, find, find, hnul, if_neg hne, if_neg hneplain, if_neg (Nat.not_le.2 hsize),
    if_neg (Nat.not_le.2 hplain)]
  split
  · rfl
  · rw [place_join disk root h, place_join disk root hinside]
    cases disk.place root with
    | error failure => simp only [Except.bind]
    | ok entry => simpa only [Except.bind] using Folder.walk_pieces_bind_text url [] entry

/-- Under a path that asks for a folder no text is read. -/
theorem read_join_ne_ok (disk : Disk) (root : String) (h : ¬ Path.LeadsOut url)
    (hasks : Path.AsksForFolder url) (text : String) :
    disk.read (Path.join root url) ≠ .ok text := by
  rw [read]
  rcases disk.find_eq_place_or (Path.join root url) with hplace | ⟨failure, -, hfailure⟩
  · rw [hplace, place_join disk root h]
    cases disk.place root with
    | error failure => simp [Except.bind]
    | ok entry =>
      have hwalk := Folder.walk_pieces_bind_text url [] entry
      rw [if_pos hasks] at hwalk
      refine ne_of_eq_of_ne hwalk ?_
      rcases Folder.walk [] entry (Path.pieces (Path.plain url)) with failure | (bytes | entries)
        <;> simp [Except.bind, FolderEntry.asFolder]
  · simp [hfailure, Except.bind]

end Disk

/-! ### The loader -/

namespace FolderLoader

theorem resolve_of_leadsOut (loader : FolderLoader) {url : String} (h : Path.LeadsOut url) :
    loader.resolve url = .error (.notLoaded url .outsideRoot) := by
  rw [resolve, if_neg fun hall => (Path.all_staysInside_iff url).1 hall h]

theorem resolve_of_not_leadsOut (loader : FolderLoader) {url : String} (h : ¬ Path.LeadsOut url) :
    loader.resolve url = .ok (Path.join loader.root url) := by
  rw [resolve, if_pos ((Path.all_staysInside_iff url).2 h)]

theorem resolve_eq_error_iff (loader : FolderLoader) (url : String) :
    loader.resolve url = .error (.notLoaded url .outsideRoot) ↔ Path.LeadsOut url := by
  by_cases h : Path.LeadsOut url
  · exact iff_of_true (loader.resolve_of_leadsOut h) h
  · rw [loader.resolve_of_not_leadsOut h]
    exact iff_of_false (by simp) h

theorem load_of_not_leadsOut (loader : FolderLoader) (disk : Disk) {url : String}
    (h : ¬ Path.LeadsOut url) :
    loader.load disk url = (disk.read (Path.join loader.root url)).mapError (.notLoaded url) := by
  rw [load, loader.resolve_of_not_leadsOut h]
  rfl

theorem load_eq_error_iff (loader : FolderLoader) (disk : Disk) (url : String) :
    loader.load disk url = .error (.notLoaded url .outsideRoot) ↔ Path.LeadsOut url := by
  by_cases h : Path.LeadsOut url
  · refine iff_of_true ?_ h
    rw [load, loader.resolve_of_leadsOut h]
    rfl
  · refine iff_of_false ?_ h
    rw [loader.load_of_not_leadsOut disk h]
    have hne := disk.read_ne_outsideRoot (Path.join loader.root url)
    generalize disk.read (Path.join loader.root url) = answer at hne
    cases answer with
    | ok text => simp [Except.mapError]
    | error failure => simpa [Except.mapError] using hne

/-- A loader reads nothing outside of its folder. -/
theorem load_congr (loader : FolderLoader) {first second : Disk}
    (h : first.place loader.root = second.place loader.root) (url : String) :
    loader.load first url = loader.load second url := by
  by_cases hout : Path.LeadsOut url
  · rw [(loader.load_eq_error_iff first url).2 hout, (loader.load_eq_error_iff second url).2 hout]
  · have hplace : first.place (Path.join loader.root url) =
        second.place (Path.join loader.root url) := by
      rw [first.place_join loader.root hout, second.place_join loader.root hout, h]
    rw [loader.load_of_not_leadsOut first hout, loader.load_of_not_leadsOut second hout, Disk.read,
      Disk.read, Disk.find_congr hplace]

theorem list_congr (loader : FolderLoader) {first second : Disk}
    (h : first.place loader.root = second.place loader.root) :
    loader.list first = loader.list second := by
  rw [list, list, Disk.find_congr h]

theorem load_ne_ok (loader : FolderLoader) (disk : Disk) {url : String}
    (hasks : Path.AsksForFolder url) (text : String) : loader.load disk url ≠ .ok text := by
  by_cases h : Path.LeadsOut url
  · rw [(loader.load_eq_error_iff disk url).2 h]
    simp
  · rw [loader.load_of_not_leadsOut disk h]
    have hne := disk.read_join_ne_ok loader.root h hasks text
    generalize disk.read (Path.join loader.root url) = answer at hne
    cases answer with
    | ok read => simpa [Except.mapError] using hne
    | error failure => simp [Except.mapError]

/-- What a loader answers depends on what its folder holds and on nothing else of the file system.
It refuses a URL that starts with a slash or has a piece `..` before it looks at any file, and no
other one. Of any other URL only the names count, and whether it asks for a folder. -/
theorem reads_below_root (loader : FolderLoader) :
    (∀ first second : Disk, first.place loader.root = second.place loader.root →
      (∀ url, loader.load first url = loader.load second url) ∧
        loader.list first = loader.list second) ∧
    (∀ url, loader.resolve url = .error (.notLoaded url .outsideRoot) ↔ Path.LeadsOut url) ∧
    (∀ disk url, loader.load disk url = .error (.notLoaded url .outsideRoot) ↔
      Path.LeadsOut url) ∧
    FileFailure.outsideRoot.message = "url must stay inside the package root" ∧
    (∀ disk url, ¬ Path.LeadsOut url → Path.join loader.root url ≠ "" →
      (Path.join loader.root url).utf8ByteSize < Disk.pathLimit →
      (Path.join loader.root (Path.plain url)).utf8ByteSize < Disk.pathLimit →
      loader.load disk url =
        ((disk.find (Path.join loader.root (Path.plain url))).bind
          (if Path.AsksForFolder url then FolderEntry.asFolder
            else FolderEntry.text)).mapError (.notLoaded url)) ∧
    ∀ disk url text, Path.AsksForFolder url → loader.load disk url ≠ .ok text := by
  refine ⟨fun first second h => ⟨loader.load_congr h, loader.list_congr h⟩,
    loader.resolve_eq_error_iff, loader.load_eq_error_iff, rfl, ?_,
    fun disk url text hasks => loader.load_ne_ok disk hasks text⟩
  intro disk url hinside hne hsize hplain
  rw [loader.load_of_not_leadsOut disk hinside, disk.read_join hinside hne hsize hplain]

/-- A file system with a package of one page at `/pkg`. -/
def diskWith (rest : Folder) (working : List String) : Disk :=
  ⟨.folder "pkg" (.file "a.html" "<p></p>".toUTF8 .nil) rest, working⟩

theorem place_diskWith (rest : Folder) (working : List String) :
    (diskWith rest working).place "/pkg" =
      .ok (.folder (.file "a.html" "<p></p>".toUTF8 .nil)) := by
  have hpieces : Path.pieces "/pkg" = ["", "pkg"] := by decide
  have habsolute : Path.isAbsolute "/pkg" = true := by decide
  have hsize : ¬ Folder.pieceLimit < "pkg".utf8ByteSize := by decide
  simp [Disk.place, hpieces, habsolute, Folder.walk, Path.isIdle, hsize, diskWith, Folder.find?]

/-- Two file systems with one package in different surroundings, and URLs of each sort. -/
theorem reads_below_root_of_package :
    let loader : FolderLoader := ⟨"/pkg"⟩
    let first := diskWith (.file "secret.html" "key".toUTF8 .nil) []
    let second := diskWith .nil ["home"]
    first.place loader.root = second.place loader.root ∧
      loader.load first "./a.html" = loader.load second "./a.html" ∧
      loader.list first = loader.list second ∧
      Path.LeadsOut "../secret.html" ∧
      loader.load first "../secret.html" = .error (.notLoaded "../secret.html" .outsideRoot) ∧
      ¬ Path.LeadsOut ".//a.html" ∧
      loader.load first ".//a.html" =
        ((first.find "/pkg/a.html").bind FolderEntry.text).mapError (.notLoaded ".//a.html") ∧
      Path.AsksForFolder "a.html/" ∧ loader.load first "a.html/" ≠ .ok "<p></p>" := by
  intro loader first second
  obtain ⟨hsame, -, hrefused, -, hread, hfolder⟩ := reads_below_root loader
  have hplace : first.place loader.root = second.place loader.root :=
    (place_diskWith _ _).trans (place_diskWith _ _).symm
  have hout : Path.LeadsOut "../secret.html" := by decide
  have hinside : ¬ Path.LeadsOut ".//a.html" := by decide
  have hfile : ¬ Path.AsksForFolder ".//a.html" := by decide
  have hpath : Path.join "/pkg" (Path.plain ".//a.html") = "/pkg/a.html" := by decide
  have hasks : Path.AsksForFolder "a.html/" := by decide
  have hloaded := hread first ".//a.html" hinside (by decide) (by decide) (by decide)
  rw [if_neg hfile, hpath] at hloaded
  have hnotLoaded := hfolder first "a.html/" "<p></p>" hasks
  exact ⟨hplace, (hsame first second hplace).1 _, (hsame first second hplace).2, hout,
    (hrefused first _).2 hout, hinside, hloaded, hasks, hnotLoaded⟩

end FolderLoader

end ElementLint
