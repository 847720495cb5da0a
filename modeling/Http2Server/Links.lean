import Http2Server.Resources

/-!
# The links of a directory's page

`getDirectoryContent` puts a slash behind the URL it is given, if there is none, and
the entry's name behind that; `getContent` joins what stands behind the bound URL to
the bound directory, with no slash of its own. `links_iff` says when the two fit.
-/

namespace Http2Server

open Lib.FileTree

namespace WebBinder

/-! ## Links -/

/-- The URL of a page, with a slash at its end. -/
def slashed (url : Bytes) : Bytes := if url.getLast? != some 0x2f then url ++ [0x2f] else url

/-- The link of an entry, in a page whose URL has its slash. -/
def href (boundUrl : Bytes) : Bytes × FileType → Bytes
  | (name, .directory) => boundUrl ++ name ++ [0x2f]
  | (name, _) => boundUrl ++ name

/-- What a link has behind the entry's name. -/
def tail (entry : Bytes × FileType) : Bytes := if entry.2 = .directory then [0x2f] else []

theorem href_eq (boundUrl : Bytes) (entry : Bytes × FileType) :
    href boundUrl entry = boundUrl ++ entry.1 ++ tail entry := by
  obtain ⟨name, type⟩ := entry
  cases type <;> simp [href, tail]

/-- An entry that the page has a link for. -/
def linked (entry : Bytes × FileType) : Bool := entry.2 == .directory || entry.2 == .regular

/-- The page is made of its entries' items, under the URL with its slash, -/
theorem page_items {fs : FileSystem} {dir url : Bytes} {entries : List (Bytes × FileType)}
    (directory : fs.status dir = some .directory) (listed : fs.entries dir = some entries) :
    ∃ head foot, getDirectoryContent fs dir url =
      some ⟨ascii "text/html", head ++ entries.flatMap (listItem (slashed url)) ++ foot⟩ := by
  refine ⟨ascii "<html><body><h1>Index for " ++ dir ++ ascii "</h1><ul>",
    ascii "</ul></body></html>", ?_⟩
  simp only [getDirectoryContent, directory, listed, Option.bind_some, Option.map_some]
  rfl

/-- and the item of an entry has the link in its anchor. -/
theorem listItem_href (boundUrl : Bytes) {entry : Bytes × FileType} (h : linked entry = true) :
    ∃ icon label, listItem boundUrl entry =
      icon ++ ascii "<a href=\"" ++ href boundUrl entry ++ ascii "\">" ++ label ++
        ascii "</a></li>" := by
  obtain ⟨name, type⟩ := entry
  cases type with
  | notFound => cases h
  | other => cases h
  | regular =>
    simp only [listItem, href, List.append_assoc]
    exact ⟨_, name, rfl⟩
  | directory =>
    have slash : ascii "/\">" = [0x2f] ++ ascii "\">" := by decide
    have close : ascii "/</a></li>" = [0x2f] ++ ascii "</a></li>" := by decide
    have label : name ++ ([0x2f] ++ ascii "</a></li>") = name ++ [0x2f] ++ ascii "</a></li>" :=
      (List.append_assoc _ _ _).symm
    simp only [listItem, href, slash, close, List.append_assoc]
    rw [label]
    exact ⟨_, name ++ [0x2f], rfl⟩

/-- The pages that links lead to from a URL, each with the path of its directory. -/
inductive Browsed (fs : FileSystem) (b : WebBinder) (url : Bytes) : Bytes → Bytes → Prop
  | start {dir : Bytes} (answered : b.answer fs url = some (.directory dir url)) :
      Browsed fs b url url dir
  | follow {page dir name sub : Bytes} {entries : List (Bytes × FileType)}
      (before : Browsed fs b url page dir) (listed : fs.entries dir = some entries)
      (member : (name, .directory) ∈ entries)
      (answered : b.answer fs (href (slashed page) (name, .directory)) =
        some (.directory sub (href (slashed page) (name, .directory)))) :
      Browsed fs b url (href (slashed page) (name, .directory)) sub

/-- Every link of every page is answered with the entry it was made for. -/
def LinksLead (d : Disk) (b : WebBinder) (url : Bytes) : Prop :=
  ∀ page dir, Browsed d.fileSystem b url page dir →
    ∀ loc entries, d.resolve dir = some loc → d.fileSystem.entries dir = some entries →
      ∀ entry ∈ entries, linked entry = true →
        b.ServedFrom d (href (slashed page) entry) (loc ++ [entry.1])

/-- The bound path is read to its end, and it or the link brings a slash to the join. -/
def Joined (dir url : Bytes) : Prop :=
  0 ∉ dir ∧ (url.getLast? ≠ some 0x2f ∨ dir.getLast? = some 0x2f)

instance (dir url : Bytes) : Decidable (Joined dir url) :=
  inferInstanceAs (Decidable (_ ∧ (_ ∨ _)))

/-- A directory is bound to the URL, and nothing else is bound. -/
structure Only (b : WebBinder) (url dir : Bytes) : Prop where
  bound : b.dirBindings[url]? = some dir
  single : ∀ other : Bytes, other ≠ url → b.dirBindings[other]? = none
  noFile : ∀ other : Bytes, b.fileBindings[other]? = none

theorem only_of_bound {fs : FileSystem} {b : WebBinder} {dir url : Bytes}
    (bound : bindDirectory fs {} dir url = some (true, b)) :
    fs.status dir = some .directory ∧ Only b url dir := by
  rcases bindDirectory_cases bound with ⟨directory, _, rfl⟩ | ⟨_, wrong, _⟩
  · refine ⟨directory, Std.TreeMap.getElem?_insert_self, ?_, ?_⟩
    · intro other apart
      exact Bindings.insert_other apart dir
    · intro other
      by_cases own : other = url
      · rw [own]
        exact Std.TreeMap.getElem?_erase_self
      · exact Bindings.erase_other own
  · cases wrong

section
variable {d : Disk} {b : WebBinder} {url dir : Bytes}

theorem Only.page (only : Only b url dir) (fs : FileSystem) :
    b.answer fs url = some (.directory dir url) := by
  simp only [answer, only.bound]

/-- What stands behind the bound URL is looked up below the directory. -/
theorem Only.through (only : Only b url dir) {rest : Bytes} (some : rest ≠ []) :
    b.dirBindings[url ++ rest]? = none ∧ b.prefixBinding (url ++ rest) = .some (url, dir) := by
  constructor
  · exact only.single _ (by simpa using some)
  · refine prefixBinding_eq_some_iff.mpr ⟨only.bound, List.prefix_append _ _, ?_⟩
    intro other held _
    by_cases same : other = url
    · rw [same]
    · rw [Std.TreeMap.mem_iff_isSome_getElem?, only.single other same] at held
      cases held

theorem Only.served (only : Only b url dir) {rest : Bytes} (some : rest ≠ []) (loc : List Bytes) :
    b.ServedFrom d (url ++ rest) loc ↔
      d.resolve (dir ++ rest) = .some loc ∧
        (d.typeAt loc = .directory ∨ d.typeAt loc = .regular) := by
  obtain ⟨noDirectory, first⟩ := only.through some
  rw [servedFrom_through noDirectory (only.noFile _) first, newUrl, List.drop_left]

/-- A page whose links are joined behind a slash: what follows its URL follows `base`. -/
structure Based (d : Disk) (url dir page path base : Bytes) (loc : List Bytes) : Prop where
  joins : ∃ front, slashed page = url ++ front ∧ dir ++ front = base ++ [0x2f]
  plain : 0 ∉ base
  found : d.resolve path = some loc
  based : d.resolve (base ++ [0x2f]) = some loc

theorem slashed_of_slash {page : Bytes} (h : page.getLast? = some 0x2f) : slashed page = page := by
  simp [slashed, h]

/-- The page at the bound URL. -/
theorem based_start (joined : Joined dir url)
    (directory : d.fileSystem.status dir = some .directory) :
    ∃ base loc, Based d url dir url dir base loc := by
  obtain ⟨plain, slash⟩ := joined
  obtain ⟨loc, found, type⟩ := d.resolve_of_status directory (by simp)
  by_cases own : url.getLast? = some 0x2f
  · rcases slash with none | last
    · exact absurd own none
    · obtain ⟨base, rfl⟩ := List.getLast?_eq_some_iff.mp last
      refine ⟨base, loc, ⟨[], ?_, ?_⟩, ?_, found, found⟩
      · rw [slashed_of_slash own, List.append_nil]
      · rw [List.append_nil]
      · intro nul
        exact plain (List.mem_append_left _ nul)
  · refine ⟨dir, loc, ⟨[0x2f], ?_, rfl⟩, plain, found, ?_⟩
    · rw [slashed, if_pos (by simpa using own)]
    · exact Disk.resolve_slash plain found (Disk.node_directory type)

section
variable {page path base : Bytes} {loc : List Bytes} (based : Based d url dir page path base loc)
include based

/-- Where a link leads: to the path of its entry, behind a slash. -/
theorem Based.link {entries : List (Bytes × FileType)}
    (listed : d.fileSystem.entries path = some entries) {entry : Bytes × FileType}
    (member : entry ∈ entries) : ∃ rest, rest ≠ [] ∧ href (slashed page) entry = url ++ rest ∧
      dir ++ rest = base ++ 0x2f :: entry.1 ++ tail entry ∧
      d.resolve (base ++ 0x2f :: entry.1 ++ tail entry) = some (loc ++ [entry.1]) := by
  obtain ⟨⟨front, within, joins⟩, plain, found, based⟩ := based
  obtain ⟨isName, stands, type⟩ := Disk.mem_entries found listed member
  have reached := Disk.resolve_entry plain isName based stands
  refine ⟨front ++ entry.1 ++ tail entry, by simp [isName.ne_nil], ?_, ?_, ?_⟩
  · simp only [href_eq, within, List.append_assoc]
  · rw [← List.append_assoc, ← List.append_assoc, joins, List.append_assoc base]
    rfl
  · unfold tail
    split
    · next directory =>
      rw [type] at directory
      apply Disk.resolve_slash _ reached (Disk.node_directory directory)
      simp [plain, isName.2.2]
    · rw [List.append_nil]
      exact reached

/-- A link leads to its entry. -/
theorem Based.served (only : Only b url dir) {entries : List (Bytes × FileType)}
    (listed : d.fileSystem.entries path = some entries) {entry : Bytes × FileType}
    (member : entry ∈ entries) (link : linked entry = true) :
    b.ServedFrom d (href (slashed page) entry) (loc ++ [entry.1]) := by
  obtain ⟨rest, some, same, joined, reached⟩ := based.link listed member
  obtain ⟨-, -, type⟩ := Disk.mem_entries based.found listed member
  rw [same, only.served some, joined, ← type]
  exact ⟨reached, by simpa [linked] using link⟩

/-- The page of a subdirectory. -/
theorem Based.follow (only : Only b url dir) {entries : List (Bytes × FileType)} {name sub : Bytes}
    (listed : d.fileSystem.entries path = some entries) (member : (name, .directory) ∈ entries)
    (answered : b.answer d.fileSystem (href (slashed page) (name, .directory)) =
      some (.directory sub (href (slashed page) (name, .directory)))) :
    Based d url dir (href (slashed page) (name, .directory)) sub (base ++ 0x2f :: name)
      (loc ++ [name]) := by
  obtain ⟨rest, some, same, joined, reached⟩ := based.link listed member
  obtain ⟨isName, -, -⟩ := Disk.mem_entries based.found listed member
  obtain ⟨noDirectory, first⟩ := only.through some
  have path : sub = base ++ 0x2f :: name ++ [0x2f] := by
    rw [same, answer_through noDirectory (only.noFile _) first, newUrl, List.drop_left,
      Option.map_eq_some_iff] at answered
    obtain ⟨type, -, chosen⟩ := answered
    cases type <;> cases chosen
    exact joined
  subst path
  refine ⟨⟨rest, ?_, joined⟩, ?_, reached, reached⟩
  · rw [slashed_of_slash (by simp [href]), same]
  · simp [based.plain, isName.2.2]

end

/-! ## Links that are not joined -/

/-- Behind a NUL nothing is read. -/
theorem resolve_nul (d : Disk) {path : Bytes} (nul : 0 ∈ path) (rest : Bytes) :
    d.resolve (path ++ rest) = d.resolve path := by
  have cut : cString (path ++ rest) = cString path := by
    rw [cString_append, continuation, if_pos nul, List.append_nil]
  rw [Disk.resolve, Disk.resolve, cut]

/-- A name that runs on from a path names nothing below it. -/
theorem resolve_runOn {path : Bytes} {loc arrived : List Bytes} {entry : Bytes × FileType}
    (plain : 0 ∉ path) (bare : path.getLast? ≠ some 0x2f) (isName : IsName entry.1)
    (found : d.resolve path = some loc)
    (reached : d.resolve (path ++ (entry.1 ++ tail entry)) = some arrived) :
    arrived ≠ loc ++ [entry.1] := by
  have some : path ≠ [] := by
    rintro rfl
    cases found
  have front := last_ne_nil some bare
  have whole : 0x2f ∉ lastComponent path ++ entry.1 := by
    simp [slash_notMem_last, isName.2.1]
  have way : wayOn path (entry.1 ++ tail entry) = ⟨0, [lastComponent path ++ entry.1]⟩ := by
    have rest : cString (entry.1 ++ tail entry) = entry.1 ++ tail entry :=
      cString_self (by simp [isName.2.2, tail])
    have stays : stepOf [] = .stay := by decide
    rw [wayOn, cString_self plain, continuation, if_neg plain, rest, ← List.append_assoc]
    unfold tail
    split
    · rw [components_slash, components_name whole]
      simp [components, stays, isName.behind front, Offset.ofSteps, Offset.step]
    · rw [List.append_nil, components_name whole]
      simp [isName.behind front, Offset.ofSteps, Offset.step]
  rw [Disk.resolve_wayOn found reached, way, Offset.land]
  intro same
  obtain ⟨-, last⟩ := List.append_inj' same rfl
  exact front (by simpa using last)

theorem not_served_unjoined (only : Only b url dir) (unjoined : ¬ Joined dir url)
    {loc : List Bytes} {entry : Bytes × FileType} (isName : IsName entry.1)
    (found : d.resolve dir = some loc) :
    ¬ b.ServedFrom d (href (slashed url) entry) (loc ++ [entry.1]) := by
  by_cases nul : 0 ∈ dir
  · obtain ⟨front, within⟩ : ∃ front, slashed url = url ++ front := by
      unfold slashed
      split
      · exact ⟨_, rfl⟩
      · exact ⟨[], (List.append_nil url).symm⟩
    rw [href_eq, within, List.append_assoc, List.append_assoc,
      only.served (by simp [isName.ne_nil]), resolve_nul d nul, found]
    simp
  · rw [Joined, and_iff_right nul, not_or, not_not] at unjoined
    obtain ⟨own, bare⟩ := unjoined
    rw [href_eq, slashed_of_slash own, List.append_assoc, only.served (by simp [isName.ne_nil])]
    rintro ⟨reached, -⟩
    exact resolve_runOn nul bare isName found reached rfl

/-- All pages are based, if the first is. -/
theorem Browsed.based (only : Only b url dir) {page path : Bytes}
    (browsed : Browsed d.fileSystem b url page path)
    (first : ∃ base loc, Based d url dir url dir base loc) :
    ∃ base loc, Based d url dir page path base loc := by
  induction browsed with
  | start answered =>
    rw [only.page] at answered
    cases answered
    exact first
  | follow before listed member answered ih =>
    obtain ⟨base, loc, based⟩ := ih
    exact ⟨_, _, based.follow only listed member answered⟩

/-- Without links there is one page. -/
theorem Browsed.first (only : Only b url dir) {page path : Bytes}
    (browsed : Browsed d.fileSystem b url page path)
    (bare : ∀ entries, d.fileSystem.entries dir = some entries →
      ∀ entry ∈ entries, linked entry = false) : page = url ∧ path = dir := by
  induction browsed with
  | start answered =>
    rw [only.page] at answered
    cases answered
    exact ⟨rfl, rfl⟩
  | follow before listed member answered ih =>
    obtain ⟨rfl, rfl⟩ := ih
    exact absurd (bare _ listed _ member) (by simp [linked])

end

/-- **Links.** Of a directory that alone is bound, every link of every page leads to
its entry exactly if a slash comes to stand between the path and what follows the URL,
or the directory's page has no links. -/
theorem links_iff {d : Disk} {b : WebBinder} {dir url : Bytes}
    (bound : bindDirectory d.fileSystem {} dir url = some (true, b)) :
    LinksLead d b url ↔ Joined dir url ∨
      ∀ entries, d.fileSystem.entries dir = some entries →
        ∀ entry ∈ entries, linked entry = false := by
  obtain ⟨directory, only⟩ := only_of_bound bound
  obtain ⟨loc, found, -⟩ := d.resolve_of_status directory (by simp)
  constructor
  · intro lead
    rw [or_iff_not_imp_left]
    intro unjoined entries listed entry member
    by_contra link
    obtain ⟨isName, -, -⟩ := Disk.mem_entries found listed member
    exact not_served_unjoined only unjoined isName found
      (lead url dir (.start (only.page _)) loc entries found listed entry member
        (Bool.eq_true_of_not_eq_false link))
  · rintro (joined | bare) page path browsed loc' entries found' listed entry member link
    · obtain ⟨base, loc'', based⟩ := browsed.based only (based_start joined directory)
      cases based.found.symm.trans found'
      exact based.served only listed member link
    · obtain ⟨rfl, rfl⟩ := browsed.first only bare
      exact absurd (bare entries listed entry member) (by simp [link])

/-- The binding of `main`. -/
theorem links_iff_site :
    ∃ b, bindDirectory siteDisk.fileSystem {} (ascii "./html/") (ascii "/html") = some (true, b) ∧
      LinksLead siteDisk b (ascii "/html") := by
  have directory : siteDisk.fileSystem.status (ascii "./html/") = some .directory := by
    decide +kernel
  have bound := bindDirectory_done {} (ascii "/html") directory
  exact ⟨_, bound, (links_iff bound).mpr (.inl ⟨by decide, .inl (by decide)⟩)⟩

/-- With the slash on the other side the link of the page leads nowhere. -/
theorem link_lost :
    ∃ b, bindDirectory siteDisk.fileSystem {} (ascii "./html") (ascii "/html/") = some (true, b) ∧
      (∃ entries, siteDisk.fileSystem.entries (ascii "./html") = some entries ∧
        (ascii "reallyCoolSite.html", .regular) ∈ entries) ∧
      href (slashed (ascii "/html/")) (ascii "reallyCoolSite.html", .regular) =
        ascii "/html/reallyCoolSite.html" ∧
      b.getContent siteDisk.fileSystem (ascii "/html/reallyCoolSite.html") = some empty ∧
      ¬ LinksLead siteDisk b (ascii "/html/") := by
  have directory : siteDisk.fileSystem.status (ascii "./html") = some .directory := by
    decide +kernel
  have bound := bindDirectory_done {} (ascii "/html/") directory
  obtain ⟨-, only⟩ := only_of_bound bound
  have found : siteDisk.resolve (ascii "./html") = some [ascii "srv", ascii "html"] := by
    decide +kernel
  have listed : siteDisk.fileSystem.entries (ascii "./html") =
      some [(ascii "reallyCoolSite.html", .regular)] := by decide +kernel
  refine ⟨_, bound, ⟨_, listed, List.mem_singleton_self _⟩, by decide, by decide +kernel, ?_⟩
  intro lead
  have served := lead _ _ (.start (only.page _)) _ _ found listed _ (List.mem_singleton_self _) rfl
  exact not_served_unjoined only (by decide) (by decide) found served

end WebBinder

end Http2Server
