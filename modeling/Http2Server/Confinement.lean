import Http2Server.Session

/-!
# What a binding gives away

Where the content `getContent` returns stands on a disk, and the binding it is
returned for. Nothing is checked between joining `dirPath` with the rest of the
URL and opening the result, so a request leaves a bound directory when that
rest climbs out of it, or runs on from its last name; `confined_iff` says
exactly when it does not.
-/

namespace Http2Server

open Lib.FileTree

/-! ## Paths joined to a directory's -/

/-- What is read of the rest of a URL behind `dirPath`: nothing after a NUL. -/
def continuation (dirPath rest : Bytes) : Bytes := if 0 ∈ dirPath then [] else cString rest

theorem cString_append (dirPath rest : Bytes) :
    cString (dirPath ++ rest) = cString dirPath ++ continuation dirPath rest := by
  unfold cString continuation
  split
  · next nul =>
    rw [List.append_nil]
    obtain ⟨front, back, rfl⟩ := List.append_of_mem nul
    simp only [List.append_assoc, List.cons_append]
    rw [List.takeWhile_append, List.takeWhile_append]
    simp
  · next whole =>
    have kept := bne_nul whole
    rw [List.takeWhile_append_of_pos kept, List.takeWhile_eq_self_iff.mpr kept]
    rfl

/-- The way from where `dirPath` has its last component: that component, run on
into the rest of the URL. -/
def wayOn (dirPath rest : Bytes) : Offset Bytes :=
  .ofSteps ((components (lastComponent (cString dirPath) ++ continuation dirPath rest)).map stepOf)

namespace Disk

/-- Where a path has its last component. -/
def stem (d : Disk) (path : Bytes) : List Bytes :=
  (Offset.ofSteps ((components (cString path)).dropLast.map stepOf)).land (d.start (cString path))

variable {d : Disk} {dirPath : Bytes}

theorem status_resolved {path : Bytes} {loc : List Bytes} (h : d.resolve path = some loc) :
    d.fileSystem.status path = some (d.typeAt loc) := by
  simp [fileSystem, h]

theorem status_unresolved {path : Bytes} (h : d.resolve path = none) :
    d.fileSystem.status path = some .notFound := by
  simp [fileSystem, h]

theorem contentAt_regular (d : Disk) {loc : List Bytes} (h : d.typeAt loc = .regular) :
    ∃ content, d.contentAt loc = some content := by
  unfold typeAt at h
  split at h
  · cases h
  · cases h
  · next content stored => exact ⟨content, by rw [contentAt, stored]⟩
  · cases h

theorem resolve_of_status (d : Disk) {path : Bytes} {type : FileType}
    (h : d.fileSystem.status path = some type) (some : type ≠ .notFound) :
    ∃ loc, d.resolve path = .some loc ∧ d.typeAt loc = type := by
  cases found : d.resolve path with
  | none =>
    rw [status_unresolved found] at h
    exact absurd (Option.some.inj h).symm some
  | some loc =>
    rw [status_resolved found] at h
    exact ⟨loc, rfl, Option.some.inj h⟩

/-- A directory stands by its last component's step from its stem. -/
theorem resolve_stem {base : List Bytes} (h : d.resolve dirPath = some base) :
    base.take (d.stem dirPath).length <+: d.stem dirPath := by
  simp only [resolve] at h
  split at h
  · cases h
  · rw [← List.dropLast_append_getLast (components_ne_nil (cString dirPath)), List.map_append,
      Tree.walk_append] at h
    obtain ⟨stem, reached, last⟩ := Option.bind_eq_some_iff.mp h
    obtain rfl := Tree.walk_lands _ reached
    exact Tree.walk_step _ last

/-- A path that continues a directory's leads on from the directory's stem. -/
theorem resolve_wayOn {base loc : List Bytes} {rest : Bytes} (hd : d.resolve dirPath = some base)
    (h : d.resolve (dirPath ++ rest) = some loc) :
    loc = (wayOn dirPath rest).land (d.stem dirPath) := by
  simp only [resolve, cString_append] at hd h
  split at hd
  · cases hd
  · next some =>
    have from_same : d.start (cString dirPath ++ continuation dirPath rest) =
        d.start (cString dirPath) := by
      rw [start, start, List.head?_append_of_ne_nil _ some]
    split at h
    · cases h
    · rw [from_same, components_append, List.map_append, Tree.walk_append] at h
      obtain ⟨stem, reached, onwards⟩ := Option.bind_eq_some_iff.mp h
      obtain rfl := Tree.walk_lands _ reached
      exact Tree.walk_lands _ onwards

end Disk

/-! ## Bindings and what they serve -/

namespace WebBinder

/-- Some calls of `bindDirectory` and `bindFile` have made the bindings. -/
inductive Built (fs : FileSystem) : WebBinder → Prop where
  | start : Built fs {}
  | bindDirectory {b b' : WebBinder} {dir url : Bytes} {ok : Bool} (built : Built fs b)
      (bound : bindDirectory fs b dir url = some (ok, b')) : Built fs b'
  | bindFile {b b' : WebBinder} {file url : Bytes} (built : Built fs b)
      (bound : bindFile fs b file url = some b') : Built fs b'

/-- The binding `getContent` answers from. -/
inductive Source where
  | directory (dirUrl dirPath : Bytes)
  | file (path : Bytes)
  deriving DecidableEq, Repr

def source (b : WebBinder) (url : Bytes) : Option Source :=
  match b.dirBindings[url]?, b.fileBindings[url]? with
  | some dir, _ => some (.directory url dir)
  | none, some file => some (.file file)
  | none, none => (b.prefixBinding url).map fun binding => .directory binding.1 binding.2

/-- The content returned for `url` is that of the directory or file at `loc`. -/
def ServedFrom (d : Disk) (b : WebBinder) (url : Bytes) (loc : List Bytes) : Prop :=
  ∃ path, d.resolve path = some loc ∧
    (b.answer d.fileSystem url = some (.directory path url) ∧ d.typeAt loc = .directory ∨
      b.answer d.fileSystem url = some (.file path) ∧ d.typeAt loc = .regular)

/-- What is served from a directory binding lies inside the directory; what is
served from a file binding is the file. -/
def Confined (d : Disk) (b : WebBinder) (url : Bytes) : Prop :=
  ∀ loc, b.ServedFrom d url loc →
    (∀ dirUrl dirPath, b.source url = some (.directory dirUrl dirPath) →
      ∃ base, d.resolve dirPath = some base ∧ base <+: loc) ∧
    (∀ path, b.source url = some (.file path) → d.resolve path = some loc)

/-- Read on from `dirPath`, the rest of the URL climbs no further out of the
directory than it comes back down by the directory's own names. -/
def Returns (d : Disk) (dirPath rest : Bytes) : Prop :=
  ∀ base ∈ d.resolve dirPath,
    base.drop ((d.stem dirPath).length - (wayOn dirPath rest).above) <+: (wayOn dirPath rest).names

/-- The URL is bound itself, or the first binding that begins it has nothing to
serve there, or the rest of the URL returns. -/
def KeepsTo (d : Disk) (b : WebBinder) (url : Bytes) : Prop :=
  b.dirBindings[url]? ≠ none ∨ b.fileBindings[url]? ≠ none ∨
    ∀ binding ∈ b.prefixBinding url,
      (d.fileSystem.status (newUrl url binding.1 binding.2) ≠ some .directory ∧
        d.fileSystem.status (newUrl url binding.1 binding.2) ≠ some .regular) ∨
      Returns d binding.2 (url.drop binding.1.length)

instance (d : Disk) (dirPath rest : Bytes) : Decidable (Returns d dirPath rest) :=
  inferInstanceAs (Decidable (∀ base ∈ d.resolve dirPath, _))

instance (d : Disk) (b : WebBinder) (url : Bytes) : Decidable (KeepsTo d b url) :=
  inferInstanceAs (Decidable (_ ∨ _ ∨ ∀ binding ∈ b.prefixBinding url, _))

/-- Directories are bound where they are directories. -/
theorem Built.directory {d : Disk} {b : WebBinder} (built : Built d.fileSystem b)
    {url dir : Bytes} (h : b.dirBindings[url]? = some dir) :
    ∃ base, d.resolve dir = some base := by
  induction built with
  | start => simp at h
  | @bindDirectory b b' bound boundUrl ok _ made ih =>
    rcases bindDirectory_cases made with ⟨isDirectory, _, rfl⟩ | ⟨_, _, rfl⟩
    · by_cases own : url = boundUrl
      · subst own
        rw [Std.TreeMap.getElem?_insert_self, Option.some.injEq] at h
        subst h
        obtain ⟨base, found, _⟩ := d.resolve_of_status isDirectory (by simp)
        exact ⟨base, found⟩
      · rw [Bindings.insert_other own] at h
        exact ih h
    · exact ih h
  | @bindFile b b' file boundUrl _ made ih =>
    rcases bindFile_cases made with ⟨_, rfl⟩ | ⟨_, rfl⟩
    · by_cases own : url = boundUrl
      · subst own
        rw [Std.TreeMap.getElem?_erase_self] at h
        cases h
      · rw [Bindings.erase_other own] at h
        exact ih h
    · exact ih h

theorem Built.prefixBinding {d : Disk} {b : WebBinder} (built : Built d.fileSystem b)
    {url : Bytes} {binding : Bytes × Bytes} (h : b.prefixBinding url = some binding) :
    ∃ base, d.resolve binding.2 = some base :=
  built.directory (Std.TreeMap.mem_toList_iff_getElem?_eq_some.mp (List.mem_of_find?_eq_some h))

section
variable {d : Disk} {b : WebBinder} {url : Bytes}

theorem confined_directory {dir : Bytes} (hd : b.dirBindings[url]? = some dir) :
    b.Confined d url := by
  rintro loc ⟨path, found, ⟨answered, _⟩ | ⟨answered, _⟩⟩
  · simp only [answer, hd] at answered
    cases answered
    constructor
    · intro dirUrl dirPath chosen
      simp only [source, hd] at chosen
      cases chosen
      exact ⟨loc, found, List.prefix_refl loc⟩
    · intro file chosen
      simp [source, hd] at chosen
  · simp [answer, hd] at answered

theorem confined_file {file : Bytes} (hd : b.dirBindings[url]? = none)
    (hf : b.fileBindings[url]? = some file) : b.Confined d url := by
  rintro loc ⟨path, found, ⟨answered, _⟩ | ⟨answered, _⟩⟩
  · simp [answer, hd, hf] at answered
  · simp only [answer, hd, hf] at answered
    cases answered
    constructor
    · intro dirUrl dirPath chosen
      simp [source, hd, hf] at chosen
    · intro file chosen
      simp only [source, hd, hf] at chosen
      cases chosen
      exact found

theorem answer_through (hd : b.dirBindings[url]? = none) (hf : b.fileBindings[url]? = none)
    {dirUrl dirPath : Bytes} (hp : b.prefixBinding url = some (dirUrl, dirPath))
    (fs : FileSystem) :
    b.answer fs url = (fs.status (newUrl url dirUrl dirPath)).map
      (answerAt (newUrl url dirUrl dirPath) url) := by
  simp only [answer, hd, hf, hp]

/-- Through a directory's prefix anything is served that stands at the new URL. -/
theorem servedFrom_through (hd : b.dirBindings[url]? = none) (hf : b.fileBindings[url]? = none)
    {dirUrl dirPath : Bytes} (hp : b.prefixBinding url = some (dirUrl, dirPath))
    (loc : List Bytes) :
    b.ServedFrom d url loc ↔
      d.resolve (newUrl url dirUrl dirPath) = some loc ∧
        (d.typeAt loc = .directory ∨ d.typeAt loc = .regular) := by
  have chosen := answer_through hd hf hp d.fileSystem
  constructor
  · rintro ⟨path, found, ⟨answered, type⟩ | ⟨answered, type⟩⟩ <;>
      rw [chosen, Option.map_eq_some_iff] at answered <;>
      obtain ⟨status, _, same⟩ := answered <;>
      cases status <;> cases same
    · exact ⟨found, .inl type⟩
    · exact ⟨found, .inr type⟩
  · rintro ⟨found, type⟩
    rw [Disk.status_resolved found] at chosen
    refine ⟨newUrl url dirUrl dirPath, found, type.imp ?_ ?_⟩
    · intro directory
      exact ⟨by rw [chosen, directory]; rfl, directory⟩
    · intro regular
      exact ⟨by rw [chosen, regular]; rfl, regular⟩

/-- The rest of the URL returns exactly where it leads inside the directory. -/
theorem returns_iff {dirPath rest : Bytes} {base loc : List Bytes}
    (hd : d.resolve dirPath = some base) (h : d.resolve (dirPath ++ rest) = some loc) :
    Returns d dirPath rest ↔ base <+: loc := by
  rw [Disk.resolve_wayOn hd h, Offset.inside_land (Disk.resolve_stem hd)]
  simp [Returns, hd]

/-- For a directory binding, confinement is about what is served only. -/
theorem confined_iff_inside {dirUrl dirPath : Bytes} {base : List Bytes}
    (chosen : b.source url = some (.directory dirUrl dirPath))
    (hbase : d.resolve dirPath = some base) :
    b.Confined d url ↔ ∀ loc, b.ServedFrom d url loc → base <+: loc := by
  constructor
  · intro confined loc served
    obtain ⟨base', resolved, inside⟩ := (confined loc served).1 dirUrl dirPath chosen
    rw [hbase] at resolved
    cases resolved
    exact inside
  · intro inside loc served
    constructor
    · intro dirUrl' dirPath' same
      rw [chosen] at same
      cases same
      exact ⟨base, hbase, inside loc served⟩
    · intro file same
      rw [chosen] at same
      cases same

theorem confined_through (built : Built d.fileSystem b) (hd : b.dirBindings[url]? = none)
    (hf : b.fileBindings[url]? = none) {dirUrl dirPath : Bytes}
    (hp : b.prefixBinding url = some (dirUrl, dirPath)) :
    b.Confined d url ↔
      (d.fileSystem.status (newUrl url dirUrl dirPath) ≠ some .directory ∧
        d.fileSystem.status (newUrl url dirUrl dirPath) ≠ some .regular) ∨
      Returns d dirPath (url.drop dirUrl.length) := by
  obtain ⟨base, hbase⟩ := built.prefixBinding hp
  have chosen : b.source url = some (.directory dirUrl dirPath) := by
    simp only [source, hd, hf, hp, Option.map_some]
  simp only [confined_iff_inside chosen hbase, servedFrom_through hd hf hp]
  cases found : d.resolve (newUrl url dirUrl dirPath) with
  | none => simp [Disk.status_unresolved found]
  | some loc =>
    rw [Disk.status_resolved found, returns_iff hbase found]
    constructor
    · intro inside
      by_cases type : d.typeAt loc = .directory ∨ d.typeAt loc = .regular
      · exact .inr (inside loc ⟨rfl, type⟩)
      · rw [not_or] at type
        exact .inl ⟨by simpa using type.1, by simpa using type.2⟩
    · rintro (nothing | inside) loc' ⟨same, type⟩
      · cases same
        rcases type with directory | regular
        · exact absurd (congrArg some directory) nothing.1
        · exact absurd (congrArg some regular) nothing.2
      · cases same
        exact inside

/-- **Confinement.** What a request is served stays inside the directory it is
served from exactly when the rest of its URL returns there. -/
theorem confined_iff (built : Built d.fileSystem b) : b.Confined d url ↔ b.KeepsTo d url := by
  unfold KeepsTo
  cases hd : b.dirBindings[url]? with
  | some dir => exact iff_of_true (confined_directory hd) (.inl (by simp))
  | none =>
    cases hf : b.fileBindings[url]? with
    | some file => exact iff_of_true (confined_file hd hf) (.inr (.inl (by simp)))
    | none =>
      cases hp : b.prefixBinding url with
      | none =>
        refine iff_of_true ?_ (by simp)
        rintro loc ⟨path, _, ⟨answered, _⟩ | ⟨answered, _⟩⟩ <;>
          simp [answer, hd, hf, hp] at answered
      | some binding =>
        obtain ⟨dirUrl, dirPath⟩ := binding
        rw [confined_through built hd hf hp]
        simp

end

/-- What is served from a location is the location's page or its bytes. -/
theorem getContent_servedFrom {d : Disk} {b : WebBinder} {url : Bytes} {loc : List Bytes}
    (h : b.ServedFrom d url loc) :
    ∃ path, d.resolve path = some loc ∧
      (b.getContent d.fileSystem url = getDirectoryContent d.fileSystem path url ∨
        ∃ content, d.contentAt loc = some content ∧
          b.getContent d.fileSystem url = some ⟨ResponseData.getMimeType path, content⟩) := by
  obtain ⟨path, found, ⟨answered, _⟩ | ⟨answered, type⟩⟩ := h
  · refine ⟨path, found, .inl ?_⟩
    rw [getContent, answered]
    rfl
  · obtain ⟨content, stored⟩ := d.contentAt_regular type
    have read : d.fileSystem.read path = some content := by simp [Disk.fileSystem, found, stored]
    refine ⟨path, found, .inr ⟨content, stored, ?_⟩⟩
    rw [getContent, answered]
    simp [getFileContent, Disk.status_resolved found, type, ResponseData.fromPath,
      ResponseData.readFromFile, read]

theorem ofMain_built {fs : FileSystem} {b : WebBinder} (h : ofMain fs = some b) : Built fs b := by
  obtain ⟨⟨ok, pages⟩, directory, file⟩ := Option.bind_eq_some_iff.mp h
  exact .bindFile (.bindDirectory .start directory) file

theorem siteBinder_built : Built siteDisk.fileSystem siteEnv.binder := by
  show Built siteDisk.fileSystem ((ofMain siteDisk.fileSystem).getD {})
  cases made : ofMain siteDisk.fileSystem with
  | none => exact .start
  | some b => exact ofMain_built made

theorem confined_iff_page :
    siteEnv.binder.Confined siteDisk (ascii "/html/reallyCoolSite.html") :=
  (confined_iff siteBinder_built).mpr (by decide +kernel)

/-- The private key, for the asking. -/
theorem serverKey_served :
    Built siteDisk.fileSystem siteEnv.binder ∧
    siteEnv.binder.getContent siteDisk.fileSystem (ascii "/html/../server.key") =
      some ⟨ascii "application/octet-stream", ascii "KEY"⟩ ∧
    ¬ siteEnv.binder.Confined siteDisk (ascii "/html/../server.key") := by
  refine ⟨siteBinder_built, by decide +kernel, ?_⟩
  intro confined
  have served : siteEnv.binder.ServedFrom siteDisk (ascii "/html/../server.key")
      [ascii "srv", ascii "server.key"] :=
    ⟨ascii "./html//../server.key", by decide +kernel, .inr (by decide +kernel)⟩
  obtain ⟨base, directory, inside⟩ :=
    (confined _ served).1 (ascii "/html") (ascii "./html/") (by decide +kernel)
  have pages : siteDisk.resolve (ascii "./html/") = some [ascii "srv", ascii "html"] := by
    decide +kernel
  rw [pages] at directory
  cases directory
  exact absurd inside (by decide +kernel)

end WebBinder

end Http2Server
