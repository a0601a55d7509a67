import ElementLint.Proofs.Loader.Folder
import Mathlib.Data.String.Basic

/-!
# Listing the files below a folder

`Folder.Holds` says which files stand below a folder and under which names. On the folders of a file
system (`Folder.WellFormed`) these are the files that a walk along the names leads to
(`Folder.walk_of_holds`), and a list of files has each of those with markup once, in the order of
the names on the way to it (`Folder.mem_markupPaths_iff`, `Folder.pairwise_markupPaths`). So what a
loader lists it can load (`FolderLoader.list_load`), as long as paths are not too long for the file
system.
-/

namespace ElementLint

/-! ### Names of entries -/

namespace Path

/-- A name that an entry of a folder can have: a piece of a path that leads into the folder and is
not too long. -/
def IsName (name : String) : Prop :=
  isIdle name = false ∧ name ≠ ".." ∧ '/' ∉ name.toList ∧ '\x00' ∉ name.toList ∧
    name.utf8ByteSize ≤ Folder.pieceLimit

instance (name : String) : Decidable (IsName name) :=
  inferInstanceAs (Decidable (_ ∧ _))

variable {path : List String}

theorem pieces_of_isName (hne : path ≠ []) (h : ∀ name ∈ path, IsName name) :
    pieces ("/".intercalate path) = path :=
  pieces_intercalate hne fun name hmem => (h name hmem).2.2.1

/-- The way along the names of entries does not lead out of a folder. -/
theorem not_leadsOut_of_isName (hne : path ≠ []) (h : ∀ name ∈ path, IsName name) :
    ¬ LeadsOut ("/".intercalate path) := by
  have hpieces := pieces_of_isName hne h
  rintro (hroot | habove)
  · have hhead := head?_pieces_of_isAbsolute (beq_iff_eq.2 hroot)
    rw [hpieces] at hhead
    have hidle := (h "" (List.mem_of_mem_head? hhead)).1
    contradiction
  · rw [hpieces] at habove
    exact (h ".." habove).2.1 rfl

theorem nul_not_mem_of_isName (hne : path ≠ []) (h : ∀ name ∈ path, IsName name) :
    '\x00' ∉ ("/".intercalate path).toList := by
  rw [← exists_mem_pieces_iff (by decide), pieces_of_isName hne h]
  rintro ⟨name, hmem, hnul⟩
  exact (h name hmem).2.2.2.1 hnul

theorem intercalate_ne_empty_of_isName (hne : path ≠ []) (h : ∀ name ∈ path, IsName name) :
    "/".intercalate path ≠ "" := by
  intro hempty
  have hpieces := pieces_of_isName hne h
  rw [hempty, pieces_eq_singleton (by simp)] at hpieces
  have hidle := (h "" (hpieces ▸ List.mem_singleton_self "")).1
  contradiction

end Path

/-! ### Files below a folder -/

namespace Folder

variable {folder content : Folder} {entry : FolderEntry} {name : String} {path : List String}
  {bytes : ByteArray}

/-- The entries of a folder with their names. -/
def entries : Folder → List (String × FolderEntry)
  | .nil => []
  | .file name bytes rest => (name, .file bytes) :: entries rest
  | .folder name content rest => (name, .folder content) :: entries rest

/-- A folder as a file system keeps it: its entries and those of all folders below it have names
that a file system takes, each name once, and stand in the order of these. -/
def WellFormed : Folder → Prop
  | .nil => True
  | .file name _ rest =>
    Path.IsName name ∧ (∀ other ∈ rest.entries, name < other.1) ∧ rest.WellFormed
  | .folder name content rest =>
    Path.IsName name ∧ (∀ other ∈ rest.entries, name < other.1) ∧ content.WellFormed ∧
      rest.WellFormed

/-- A file stands below a folder, under the names on the way to it. -/
inductive Holds : Folder → List String → ByteArray → Prop
  | file {folder : Folder} {name : String} {bytes : ByteArray} :
      (name, .file bytes) ∈ folder.entries → Holds folder [name] bytes
  | inside {folder content : Folder} {name : String} {path : List String} {bytes : ByteArray} :
      (name, .folder content) ∈ folder.entries → Holds content path bytes →
        Holds folder (name :: path) bytes

/-- What is known of an entry: it is found under its name, which a file system takes, and a folder
is kept as the whole is. -/
theorem WellFormed.of_mem (h : folder.WellFormed) (hmem : (name, entry) ∈ folder.entries) :
    Path.IsName name ∧ folder.find? name = some entry ∧
      ∀ content, entry = .folder content → content.WellFormed := by
  induction folder with
  | nil => contradiction
  | file other bytes rest ih =>
    obtain ⟨hname, hlater, hrest⟩ := h
    rcases List.mem_cons.1 hmem with heq | hmem
    · obtain ⟨rfl, rfl⟩ := Prod.mk.inj heq
      exact ⟨hname, by rw [find?, if_pos rfl], nofun⟩
    · rw [find?, if_neg (hlater _ hmem).ne]
      exact ih hrest hmem
  | folder other content rest _ ih =>
    obtain ⟨hname, hlater, hcontent, hrest⟩ := h
    rcases List.mem_cons.1 hmem with heq | hmem
    · obtain ⟨rfl, rfl⟩ := Prod.mk.inj heq
      refine ⟨hname, by rw [find?, if_pos rfl], fun inner hinner => ?_⟩
      obtain rfl := FolderEntry.folder.inj hinner
      exact hcontent
    · rw [find?, if_neg (hlater _ hmem).ne]
      exact ih hrest hmem

theorem WellFormed.of_folder_mem (h : folder.WellFormed)
    (hmem : (name, .folder content) ∈ folder.entries) : content.WellFormed :=
  (h.of_mem hmem).2.2 content rfl

theorem Holds.ne_nil (h : folder.Holds path bytes) : path ≠ [] := by
  cases h <;> exact List.cons_ne_nil _ _

theorem Holds.isName (h : folder.Holds path bytes) (hfolder : folder.WellFormed) :
    ∀ name ∈ path, Path.IsName name := by
  induction h with
  | file hmem => exact List.forall_mem_singleton.2 ((hfolder.of_mem hmem).1)
  | inside hmem _ ih =>
    exact List.forall_mem_cons.2 ⟨(hfolder.of_mem hmem).1, ih (hfolder.of_folder_mem hmem)⟩

/-- A walk takes the step to an entry. -/
theorem walk_entry (hfolder : folder.WellFormed) (hmem : (name, entry) ∈ folder.entries)
    (around : List Folder) (path : List String) :
    walk around (.folder folder) (name :: path) = walk (folder :: around) entry path := by
  obtain ⟨⟨hidle, habove, -, -, hsize⟩, hfind, -⟩ := hfolder.of_mem hmem
  rw [walk, if_neg (by simp [hidle]), if_neg habove, if_neg (Nat.not_lt.2 hsize), hfind]

/-- The names on the way to a file lead to this file. -/
theorem walk_of_holds (h : folder.Holds path bytes) (hfolder : folder.WellFormed)
    (around : List Folder) : walk around (.folder folder) path = .ok (.file bytes) := by
  induction h generalizing around with
  | file hmem => rw [walk_entry hfolder hmem, walk]
  | inside hmem _ ih => rw [walk_entry hfolder hmem, ih (hfolder.of_folder_mem hmem)]

/-! ### Files with markup -/

/-- A file has the extension of markup if `.html` stands at the end of its name and something
before it. -/
theorem isMarkupFile_iff (name : String) :
    isMarkupFile name = true ↔ ∃ stem, stem ≠ "" ∧ name = stem ++ ".html" := by
  have hend : ".html".toList.reverse = ['l', 'm', 't', 'h', '.'] := by decide
  rw [isMarkupFile]
  constructor
  · intro h
    split at h
    · next last front hchars =>
      refine ⟨String.ofList (last :: front).reverse, ?_, ?_⟩
      · rw [ne_eq, ← String.toList_eq_nil_iff, String.toList_ofList]
        simp
      · rw [← String.toList_inj, ← List.reverse_inj, hchars, String.toList_append,
          List.reverse_append, hend, String.toList_ofList, List.reverse_reverse]
        rfl
    · contradiction
  · rintro ⟨stem, hstem, rfl⟩
    rw [String.toList_append, List.reverse_append, hend]
    cases hchars : stem.toList.reverse with
    | nil => exact absurd (String.toList_eq_nil_iff.1 (List.reverse_eq_nil_iff.1 hchars)) hstem
    | cons last front => rfl

/-- The last name on the way to a file has the extension of markup. -/
def IsMarkupPath (path : List String) : Prop :=
  ∃ front stem, stem ≠ "" ∧ path = front ++ [stem ++ ".html"]

theorem isMarkupPath_singleton : IsMarkupPath [name] ↔ isMarkupFile name = true := by
  rw [isMarkupFile_iff]
  constructor
  · rintro ⟨front, stem, hstem, heq⟩
    exact ⟨stem, hstem, by simpa using congrArg List.getLast? heq⟩
  · rintro ⟨stem, hstem, rfl⟩
    exact ⟨[], stem, hstem, rfl⟩

theorem isMarkupPath_cons (hne : path ≠ []) :
    IsMarkupPath (name :: path) ↔ IsMarkupPath path := by
  constructor
  · rintro ⟨front, stem, hstem, heq⟩
    cases front with
    | nil => exact absurd (List.cons.inj heq).2 hne
    | cons first front => exact ⟨front, stem, hstem, (List.cons.inj heq).2⟩
  · rintro ⟨front, stem, hstem, rfl⟩
    exact ⟨name :: front, stem, hstem, rfl⟩

/-- The way to a file starts outside of the folder where a list starts with names above it. -/
theorem markupPaths_eq_map (above : List String) (folder : Folder) :
    folder.markupPaths above = (folder.markupPaths []).map (above ++ ·) := by
  induction folder generalizing above with
  | nil => rfl
  | file name bytes rest ih =>
    rw [markupPaths, markupPaths, ih above]
    split <;> simp
  | folder name content rest ihContent ih =>
    rw [markupPaths, markupPaths, ih above, ihContent (above ++ [name]), ihContent ([] ++ [name])]
    simp [Function.comp_def]

theorem markupPaths_folder (name : String) (content rest : Folder) :
    (Folder.folder name content rest).markupPaths [] =
      (content.markupPaths []).map (name :: ·) ++ rest.markupPaths [] := by
  rw [markupPaths, markupPaths_eq_map]
  rfl

theorem holds_file_iff {other : ByteArray} {rest : Folder} :
    (Folder.file name other rest).Holds path bytes ↔
      (path = [name] ∧ bytes = other) ∨ rest.Holds path bytes := by
  constructor
  · rintro (hmem | ⟨hmem, hbelow⟩)
    · rcases List.mem_cons.1 hmem with heq | hmem
      · obtain ⟨rfl, hentry⟩ := Prod.mk.inj heq
        exact .inl ⟨rfl, FolderEntry.file.inj hentry⟩
      · exact .inr (.file hmem)
    · rcases List.mem_cons.1 hmem with heq | hmem
      · obtain ⟨-, hentry⟩ := Prod.mk.inj heq
        contradiction
      · exact .inr (.inside hmem hbelow)
  · rintro (⟨rfl, rfl⟩ | (hmem | ⟨hmem, hbelow⟩))
    · exact .file List.mem_cons_self
    · exact .file (List.mem_cons_of_mem _ hmem)
    · exact .inside (List.mem_cons_of_mem _ hmem) hbelow

theorem holds_folder_iff {rest : Folder} :
    (Folder.folder name content rest).Holds path bytes ↔
      (∃ below, path = name :: below ∧ content.Holds below bytes) ∨ rest.Holds path bytes := by
  constructor
  · rintro (hmem | ⟨hmem, hbelow⟩)
    · rcases List.mem_cons.1 hmem with heq | hmem
      · obtain ⟨-, hentry⟩ := Prod.mk.inj heq
        contradiction
      · exact .inr (.file hmem)
    · rcases List.mem_cons.1 hmem with heq | hmem
      · obtain ⟨rfl, hentry⟩ := Prod.mk.inj heq
        obtain rfl := FolderEntry.folder.inj hentry
        exact .inl ⟨_, rfl, hbelow⟩
      · exact .inr (.inside hmem hbelow)
  · rintro (⟨below, rfl, hbelow⟩ | (hmem | ⟨hmem, hbelow⟩))
    · exact .inside List.mem_cons_self hbelow
    · exact .file (List.mem_cons_of_mem _ hmem)
    · exact .inside (List.mem_cons_of_mem _ hmem) hbelow

/-- The list has the files with markup and no other ones. -/
theorem mem_markupPaths_iff :
    path ∈ folder.markupPaths [] ↔ (∃ bytes, folder.Holds path bytes) ∧ IsMarkupPath path := by
  induction folder generalizing path with
  | nil =>
    refine iff_of_false (List.not_mem_nil) ?_
    rintro ⟨⟨bytes, (hmem | ⟨hmem, -⟩)⟩, -⟩ <;> contradiction
  | file name other rest ih =>
    have hpaths : path ∈ (Folder.file name other rest).markupPaths [] ↔
        (path = [name] ∧ isMarkupFile name = true) ∨ path ∈ rest.markupPaths [] := by
      rw [markupPaths]
      split <;> simp [*]
    rw [hpaths, ih]
    simp only [holds_file_iff, exists_or, exists_and_left, exists_eq, and_true,
      or_and_right]
    refine or_congr (and_congr_right fun heq => ?_) Iff.rfl
    rw [heq, isMarkupPath_singleton]
  | folder name content rest ihContent ih =>
    rw [markupPaths_folder, List.mem_append, ih, List.mem_map]
    simp only [holds_folder_iff, exists_or, or_and_right, ihContent]
    refine or_congr ?_ Iff.rfl
    constructor
    · rintro ⟨below, ⟨⟨bytes, hbelow⟩, hmarkup⟩, rfl⟩
      exact ⟨⟨bytes, below, rfl, hbelow⟩, (isMarkupPath_cons hbelow.ne_nil).2 hmarkup⟩
    · rintro ⟨⟨bytes, below, rfl, hbelow⟩, hmarkup⟩
      exact ⟨below, ⟨⟨bytes, hbelow⟩, (isMarkupPath_cons hbelow.ne_nil).1 hmarkup⟩, rfl⟩

/-- The way to a file starts with the name of an entry. -/
theorem exists_entry_of_mem_markupPaths (h : path ∈ folder.markupPaths []) :
    ∃ entry ∈ folder.entries, ∃ below, path = entry.1 :: below := by
  obtain ⟨⟨bytes, (hmem | ⟨hmem, -⟩)⟩, -⟩ := mem_markupPaths_iff.1 h
  · exact ⟨_, hmem, _, rfl⟩
  · exact ⟨_, hmem, _, rfl⟩

/-- Files come in the order of the names on the way to them. -/
theorem pairwise_markupPaths (h : folder.WellFormed) :
    (folder.markupPaths []).Pairwise (· < ·) := by
  -- what an entry gives comes before what the later ones give, since its name does
  have hbefore {name : String} {rest : Folder} (below : List String)
      (hlater : ∀ other ∈ rest.entries, name < other.1) :
      ∀ path ∈ rest.markupPaths [], name :: below < path := by
    intro path hpath
    obtain ⟨other, hother, after, rfl⟩ := exists_entry_of_mem_markupPaths hpath
    exact List.cons_lt_cons_iff.2 (.inl (hlater other hother))
  induction folder with
  | nil => exact .nil
  | file name bytes rest ih =>
    obtain ⟨-, hlater, hrest⟩ := h
    rw [markupPaths]
    split
    · exact List.pairwise_cons.2 ⟨hbefore [] hlater, ih hrest⟩
    · exact ih hrest
  | folder name content rest ihContent ih =>
    obtain ⟨-, hlater, hcontent, hrest⟩ := h
    rw [markupPaths_folder, List.pairwise_append]
    refine ⟨?_, ih hrest, ?_⟩
    · refine List.pairwise_map.2 ((ihContent hcontent).imp fun hlt => ?_)
      exact List.cons_lt_cons_iff.2 (.inr ⟨rfl, hlt⟩)
    · intro path hpath
      obtain ⟨below, -, rfl⟩ := List.mem_map.1 hpath
      exact hbefore below hlater

end Folder

/-! ### Loading what is listed -/

theorem Disk.of_find_eq_ok {disk : Disk} {path : String} {entry : FolderEntry}
    (h : disk.find path = .ok entry) :
    '\x00' ∉ path.toList ∧ disk.place path = .ok entry := by
  rw [find] at h
  split at h
  · contradiction
  · next hnul =>
    split at h
    · contradiction
    · split at h
      · contradiction
      · exact ⟨by simpa using hnul, h⟩

namespace FolderLoader

variable {disk : Disk} {entries : Folder} {path : List String} {bytes : ByteArray}

/-- Under the root and the names on the way to a file a program finds this file, unless both
together are too long. -/
theorem find_join_of_holds (loader : FolderLoader)
    (hroot : disk.find loader.root = .ok (.folder entries)) (hentries : entries.WellFormed)
    (h : entries.Holds path bytes) :
    disk.find (Path.join loader.root ("/".intercalate path)) =
      if Disk.pathLimit ≤ (Path.join loader.root ("/".intercalate path)).utf8ByteSize then
        .error .nameTooLong
      else .ok (.file bytes) := by
  have hnames := h.isName hentries
  have hinside := Path.not_leadsOut_of_isName h.ne_nil hnames
  obtain ⟨hnul, hplace⟩ := Disk.of_find_eq_ok hroot
  have hnul' : '\x00' ∉ (Path.join loader.root ("/".intercalate path)).toList := by
    rw [Path.mem_join_iff (by decide) (Path.isAbsolute_eq_false hinside), not_or]
    exact ⟨hnul, Path.nul_not_mem_of_isName h.ne_nil hnames⟩
  have hne := Path.join_ne_empty loader.root (Path.intercalate_ne_empty_of_isName h.ne_nil hnames)
  rw [Disk.find, if_neg (by simpa using hnul'), if_neg hne, Disk.place_join disk _ hinside, hplace,
    Path.pieces_of_isName h.ne_nil hnames]
  exact if_congr Iff.rfl rfl (Folder.walk_of_holds h hentries [])

/-- The list of the files below a folder. A folder whose path is too long cannot be looked into. -/
theorem list_of_find (loader : FolderLoader)
    (hroot : disk.find loader.root = .ok (.folder entries)) :
    ((∀ path ∈ entries.folderPaths loader.root, path.utf8ByteSize < Disk.pathLimit) →
      loader.list disk = .ok ((entries.markupPaths []).map "/".intercalate)) ∧
    ((∃ path ∈ entries.folderPaths loader.root, Disk.pathLimit ≤ path.utf8ByteSize) →
      ∃ path ∈ entries.folderPaths loader.root, Disk.pathLimit ≤ path.utf8ByteSize ∧
        loader.list disk = .error (.unlisted path .nameTooLong)) := by
  rw [list, hroot]
  dsimp only
  split
  · next path hfound =>
    have hlong : Disk.pathLimit ≤ path.utf8ByteSize := by simpa using List.find?_some hfound
    have hmem := List.mem_of_find?_eq_some hfound
    exact ⟨fun hshort => absurd (hshort path hmem) (Nat.not_lt.2 hlong),
      fun _ => ⟨path, hmem, hlong, rfl⟩⟩
  · next hnone =>
    refine ⟨fun _ => rfl, ?_⟩
    rintro ⟨path, hmem, hlong⟩
    have hshort := List.find?_eq_none.1 hnone path hmem
    exact absurd hlong (by simpa using hshort)

/-- A loader has a file under a URL: there it finds the file, and it loads its text, unless the
bytes are not UTF-8. -/
structure Serves (loader : FolderLoader) (disk : Disk) (url : String) (bytes : ByteArray) :
    Prop where
  find_eq : disk.find (Path.join loader.root url) = .ok (.file bytes)
  load_eq_ok : ∀ text, String.fromUTF8? bytes = some text → loader.load disk url = .ok text
  load_eq_error : String.fromUTF8? bytes = none →
    loader.load disk url = .error (.notLoaded url .notText)

theorem serves_of_find_eq {loader : FolderLoader} {url : String} (hinside : ¬ Path.LeadsOut url)
    (hfind : disk.find (Path.join loader.root url) = .ok (.file bytes)) :
    loader.Serves disk url bytes where
  find_eq := hfind
  load_eq_ok text htext := by
    rw [loader.load_of_not_leadsOut disk hinside, Disk.read, hfind]
    simp only [Except.bind, FolderEntry.text, htext]
    rfl
  load_eq_error hnone := by
    rw [loader.load_of_not_leadsOut disk hinside, Disk.read, hfind]
    simp only [Except.bind, FolderEntry.text, hnone]
    rfl

/-- What a loader lists it can load. Its list has exactly the files with markup below its folder, in
the order of the names on the way to them, each once; it fails only if the path of a folder is too
long to be opened. Every URL in it stays inside and names the file that stands there, and the loader
loads this file, unless the bytes are not UTF-8 or the whole path is too long to be opened. -/
theorem list_load (loader : FolderLoader) (disk : Disk) (entries : Folder)
    (hroot : disk.find loader.root = .ok (.folder entries)) (hentries : entries.WellFormed) :
    ∃ urls,
      ((∀ path ∈ entries.folderPaths loader.root, path.utf8ByteSize < Disk.pathLimit) →
        loader.list disk = .ok urls) ∧
      ((∃ path ∈ entries.folderPaths loader.root, Disk.pathLimit ≤ path.utf8ByteSize) →
        ∃ path ∈ entries.folderPaths loader.root, Disk.pathLimit ≤ path.utf8ByteSize ∧
          loader.list disk = .error (.unlisted path .nameTooLong)) ∧
      (urls.map Path.pieces).Pairwise (· < ·) ∧
      (∀ url, url ∈ urls ↔ ∃ path, (∃ bytes, entries.Holds path bytes) ∧
        Folder.IsMarkupPath path ∧ url = "/".intercalate path) ∧
      ∀ url ∈ urls, ∃ bytes, entries.Holds (Path.pieces url) bytes ∧
        loader.resolve url = .ok (Path.join loader.root url) ∧
        ((Path.join loader.root url).utf8ByteSize < Disk.pathLimit →
          loader.Serves disk url bytes) ∧
        (Disk.pathLimit ≤ (Path.join loader.root url).utf8ByteSize →
          loader.load disk url = .error (.notLoaded url .nameTooLong)) := by
  obtain ⟨hshort, hlong⟩ := loader.list_of_find hroot
  have hpieces : ∀ path ∈ entries.markupPaths [], Path.pieces ("/".intercalate path) = path := by
    intro path hpath
    obtain ⟨⟨bytes, hholds⟩, -⟩ := Folder.mem_markupPaths_iff.1 hpath
    exact Path.pieces_of_isName hholds.ne_nil (hholds.isName hentries)
  have hmap : ((entries.markupPaths []).map "/".intercalate).map Path.pieces =
      entries.markupPaths [] := by
    rw [List.map_map]
    exact (List.map_congr_left hpieces).trans (List.map_id _)
  refine ⟨_, hshort, hlong, ?_, fun url => ?_, fun url hurl => ?_⟩
  · rw [hmap]
    exact Folder.pairwise_markupPaths hentries
  · simp only [List.mem_map, Folder.mem_markupPaths_iff, and_assoc, eq_comm]
  · obtain ⟨path, hpath, rfl⟩ := List.mem_map.1 hurl
    obtain ⟨⟨bytes, hholds⟩, -⟩ := Folder.mem_markupPaths_iff.1 hpath
    have hinside := Path.not_leadsOut_of_isName hholds.ne_nil (hholds.isName hentries)
    have hfind := loader.find_join_of_holds hroot hentries hholds
    refine ⟨bytes, by rwa [hpieces path hpath], loader.resolve_of_not_leadsOut hinside,
      fun hsize => ?_, fun hsize => ?_⟩
    · rw [if_neg (Nat.not_le.2 hsize)] at hfind
      exact serves_of_find_eq hinside hfind
    · rw [if_pos hsize] at hfind
      rw [loader.load_of_not_leadsOut disk hinside, Disk.read, hfind]
      rfl

theorem fromUTF8?_toUTF8 (text : String) : String.fromUTF8? text.toUTF8 = some text := by
  rw [String.fromUTF8?, String.toUTF8_eq_toByteArray, dif_pos text.isValidUTF8]
  rfl

/-- A file system with a package at `/pkg`. -/
def packageDisk (entries : Folder) : Disk :=
  ⟨.folder "pkg" entries .nil, []⟩

theorem find_packageDisk (entries : Folder) :
    (packageDisk entries).find "/pkg" = .ok (.folder entries) := by
  rfl

/-- A package with a file that has no extension, a file that is no text, and a folder whose file is
the first one by names, but would be the last one by whole URLs. -/
def mixedPackage : Folder :=
  .file ".html" "".toUTF8 <|
    .folder "a" (.file "b.html" "é".toUTF8 .nil) (.file "a-b.html" ⟨#[0xff]⟩ .nil)

theorem list_load_mixedPackage :
    (packageDisk mixedPackage).find "/pkg" = .ok (.folder mixedPackage) ∧
      mixedPackage.WellFormed ∧
      FolderLoader.list ⟨"/pkg"⟩ (packageDisk mixedPackage) = .ok ["a/b.html", "a-b.html"] ∧
      FolderLoader.load ⟨"/pkg"⟩ (packageDisk mixedPackage) "a/b.html" = .ok "é" ∧
      FolderLoader.load ⟨"/pkg"⟩ (packageDisk mixedPackage) "a-b.html" =
        .error (.notLoaded "a-b.html" .notText) := by
  have hentries : mixedPackage.WellFormed := by
    simp only [mixedPackage, Folder.WellFormed, Folder.entries]
    decide
  have hlist : FolderLoader.list ⟨"/pkg"⟩ (packageDisk mixedPackage) =
      .ok ["a/b.html", "a-b.html"] := by rfl
  have hfind : (packageDisk mixedPackage).find "/pkg/a/b.html" = .ok (.file "é".toUTF8) := by rfl
  have hfind' : (packageDisk mixedPackage).find "/pkg/a-b.html" = .ok (.file ⟨#[0xff]⟩) := by rfl
  obtain ⟨urls, hshort, -, -, -, hload⟩ :=
    list_load ⟨"/pkg"⟩ _ mixedPackage (find_packageDisk _) hentries
  have hurls : FolderLoader.list ⟨"/pkg"⟩ (packageDisk mixedPackage) = .ok urls :=
    hshort (by decide)
  obtain rfl : urls = ["a/b.html", "a-b.html"] := Except.ok.inj (hurls.symm.trans hlist)
  obtain ⟨bytes, -, -, hserves, -⟩ := hload "a/b.html" (by simp)
  obtain ⟨bytes', -, -, hserves', -⟩ := hload "a-b.html" (by simp)
  replace hserves := hserves (by decide)
  replace hserves' := hserves' (by decide)
  obtain rfl : "é".toUTF8 = bytes :=
    FolderEntry.file.inj (Except.ok.inj (hfind.symm.trans hserves.find_eq))
  obtain rfl : ⟨#[0xff]⟩ = bytes' :=
    FolderEntry.file.inj (Except.ok.inj (hfind'.symm.trans hserves'.find_eq))
  exact ⟨find_packageDisk _, hentries, hlist, hserves.load_eq_ok _ (fromUTF8?_toUTF8 "é"),
    hserves'.load_eq_error (by decide)⟩

/-- A path of slashes only. -/
def slashes (count : Nat) : String :=
  String.ofList (List.replicate count '/')

theorem utf8ByteSize_slashes (count : Nat) : (slashes count).utf8ByteSize = count := by
  rw [slashes, String.utf8ByteSize_ofList]
  induction count with
  | zero => rfl
  | succ count ih => rw [List.replicate_succ, String.utf8Len_cons, ih]; rfl

/-- Slashes lead to the outermost folder. -/
theorem place_slashes (disk : Disk) (count : Nat) :
    disk.place (slashes (count + 1)) = .ok (.folder disk.top) := by
  have habsolute : Path.isAbsolute (slashes (count + 1)) = true := by
    rw [Path.isAbsolute, slashes, String.toList_ofList, List.replicate_succ]
    rfl
  have hidle : ∀ piece ∈ Path.pieces (slashes (count + 1)), Path.isIdle piece = true := by
    intro piece hmem
    have hempty : piece = "" := by
      rw [← String.toList_eq_nil_iff, List.eq_nil_iff_forall_not_mem]
      intro c hc
      have hslash : c ≠ '/' := fun heq => Path.slash_not_mem_of_mem_pieces hmem (heq ▸ hc)
      have hchar := (Path.exists_mem_pieces_iff hslash).1 ⟨piece, hmem, hc⟩
      rw [slashes, String.toList_ofList] at hchar
      exact hslash (List.eq_of_mem_replicate hchar)
    rw [hempty]
    rfl
  have hwalk (path : List String) (hpath : ∀ piece ∈ path, Path.isIdle piece = true) :
      Folder.walk [] (.folder disk.top) path = .ok (.folder disk.top) := by
    induction path with
    | nil => rw [Folder.walk]
    | cons piece path ih =>
      obtain ⟨hpiece, hpath⟩ := List.forall_mem_cons.1 hpath
      rw [Folder.walk, if_pos hpiece, ih hpath]
  rw [Disk.place, if_pos habsolute]
  exact hwalk _ hidle

theorem find_slashes (disk : Disk) {count : Nat} (h : count + 1 < Disk.pathLimit) :
    disk.find (slashes (count + 1)) = .ok (.folder disk.top) := by
  have hnul : '\x00' ∉ (slashes (count + 1)).toList := by
    rw [slashes, String.toList_ofList]
    exact fun hmem => absurd (List.eq_of_mem_replicate hmem) (by decide)
  have hne : slashes (count + 1) ≠ "" := by
    intro hempty
    have hsize := utf8ByteSize_slashes (count + 1)
    rw [hempty] at hsize
    contradiction
  rw [Disk.find, if_neg (by simpa using hnul), if_neg hne, utf8ByteSize_slashes,
    if_neg (Nat.not_le.2 h), place_slashes]

theorem join_slashes {url : String} (count : Nat) (hurl : Path.isAbsolute url = false) :
    Path.join (slashes count) url = slashes count ++ url := by
  rw [Path.join_eq hurl, slashes, String.toList_ofList, List.getLast?_replicate, if_pos]
  split <;> rfl

/-- A text below a root with a long path is listed, but cannot be loaded. -/
theorem list_load_slashes :
    let entries : Folder := .file "a.html" "x".toUTF8 .nil
    let disk : Disk := ⟨entries, []⟩
    let loader : FolderLoader := ⟨slashes 4090⟩
    disk.find loader.root = .ok (.folder entries) ∧ entries.WellFormed ∧
      entries.folderPaths loader.root = [] ∧ loader.list disk = .ok ["a.html"] ∧
      entries.Holds ["a.html"] "x".toUTF8 ∧ String.fromUTF8? "x".toUTF8 = some "x" ∧
      loader.load disk "a.html" = .error (.notLoaded "a.html" .nameTooLong) := by
  intro entries disk loader
  have hroot : disk.find loader.root = .ok (.folder entries) := find_slashes disk (by decide)
  have hentries : entries.WellFormed := by
    simp only [entries, Folder.WellFormed, Folder.entries]
    decide
  have hholds : entries.Holds ["a.html"] "x".toUTF8 := .file List.mem_cons_self
  have hsize : Disk.pathLimit ≤ (Path.join loader.root "a.html").utf8ByteSize := by
    rw [join_slashes 4090 (by decide), String.utf8ByteSize_append, utf8ByteSize_slashes]
    decide
  have hfind := loader.find_join_of_holds hroot hentries hholds
  rw [String.intercalate_singleton, if_pos hsize] at hfind
  refine ⟨hroot, hentries, rfl, (loader.list_of_find hroot).1 (List.forall_mem_nil _), hholds,
    fromUTF8?_toUTF8 "x", ?_⟩
  rw [loader.load_of_not_leadsOut disk (by decide), Disk.read, hfind]
  rfl

end FolderLoader

end ElementLint
