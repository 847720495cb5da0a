import Http2Server.Resources

/-!
# Binding directories and files

- `history_bound`: after any calls of `bindDirectory` and `bindFile` a URL is bound
  to what the last call for it that succeeded bound it to.
- `longest_iff`: where directories are bound to a URL and to one that it begins, when
  the longer one is heard.
-/

namespace Http2Server.WebBinder

/-! ## Histories of calls -/

inductive BindCall where
  | directory (dir url : Bytes)
  | file (path url : Bytes)
  deriving DecidableEq, Repr

/-- What a URL is bound to: the kind and the path. -/
inductive Bound where
  | directory (dir : Bytes)
  | file (path : Bytes)
  deriving DecidableEq, Repr

namespace BindCall

def url : BindCall → Bytes
  | directory _ url => url
  | file _ url => url

def bound : BindCall → Bound
  | directory dir _ => .directory dir
  | file path _ => .file path

/-- The path is of the kind that the call binds. -/
def succeeds (fs : FileSystem) : BindCall → Bool
  | directory dir _ => fs.status dir = some .directory
  | file path _ => fs.status path = some .regular

end BindCall

/-- The binder after a call. An exception of the file system comes before any change. -/
def call (fs : FileSystem) (b : WebBinder) : BindCall → WebBinder
  | .directory dir url => ((bindDirectory fs b dir url).map Prod.snd).getD b
  | .file path url => (bindFile fs b path url).getD b

/-- The calls made, the oldest first, each with the files as they were at that time. -/
abbrev History := List (FileSystem × BindCall)

def ofHistory (history : History) : WebBinder :=
  history.foldl (fun b entry => call entry.1 b entry.2) {}

/-- What the last call for the URL bound it to, of those that succeeded. -/
def lastBound (history : History) (url : Bytes) : Option Bound :=
  (history.filter fun entry => entry.2.succeeds entry.1 && entry.2.url == url).getLast?.map
    (·.2.bound)

/-- The maps have one entry for the URL or none, and its content is what is bound. -/
inductive Holds (b : WebBinder) (url : Bytes) : Option Bound → Prop
  | directory {dir : Bytes} (bound : b.dirBindings[url]? = some dir)
      (noFile : b.fileBindings[url]? = none)
      (content : ∀ fs, b.getContent fs url = getDirectoryContent fs dir url) :
      Holds b url (some (.directory dir))
  | file {path : Bytes} (noDirectory : b.dirBindings[url]? = none)
      (bound : b.fileBindings[url]? = some path)
      (content : ∀ fs, b.getContent fs url = getFileContent fs path) :
      Holds b url (some (.file path))
  | unbound (noDirectory : b.dirBindings[url]? = none) (noFile : b.fileBindings[url]? = none) :
      Holds b url none

/-- The two maps, read as one. -/
def Agrees (b : WebBinder) (url : Bytes) : Option Bound → Prop
  | some (.directory dir) => b.dirBindings[url]? = some dir ∧ b.fileBindings[url]? = none
  | some (.file path) => b.dirBindings[url]? = none ∧ b.fileBindings[url]? = some path
  | none => b.dirBindings[url]? = none ∧ b.fileBindings[url]? = none

theorem Agrees.holds {b : WebBinder} {url : Bytes} {bound : Option Bound}
    (h : Agrees b url bound) : Holds b url bound := by
  cases bound with
  | none => exact .unbound h.1 h.2
  | some bound =>
    cases bound with
    | directory dir =>
      refine .directory h.1 h.2 fun fs => ?_
      rw [getContent, answer, h.1]
      rfl
    | file path =>
      refine .file h.1 h.2 fun fs => ?_
      rw [getContent, answer, h.1, h.2]
      rfl

/-- Elsewhere the maps are as they were. -/
theorem Agrees.other {b b' : WebBinder} {url : Bytes} {bound : Option Bound}
    (h : Agrees b url bound) (dirs : b'.dirBindings[url]? = b.dirBindings[url]?)
    (files : b'.fileBindings[url]? = b.fileBindings[url]?) : Agrees b' url bound := by
  unfold Agrees
  rw [dirs, files]
  exact h

/-- A call that fails changes nothing. -/
theorem call_failed {fs : FileSystem} (b : WebBinder) {c : BindCall}
    (failed : c.succeeds fs = false) : call fs b c = b := by
  cases c with
  | directory dir url =>
    have other : fs.status dir ≠ some .directory := of_decide_eq_false failed
    simp only [call]
    cases made : bindDirectory fs b dir url with
    | none => rfl
    | some result =>
      rcases bindDirectory_cases made with ⟨directory, _⟩ | ⟨_, _, same⟩
      · exact absurd directory other
      · exact same
  | file path url =>
    have other : fs.status path ≠ some .regular := of_decide_eq_false failed
    simp only [call]
    cases made : bindFile fs b path url with
    | none => rfl
    | some result =>
      rcases bindFile_cases made with ⟨regular, _⟩ | ⟨_, same⟩
      · exact absurd regular other
      · exact same

/-- A call that succeeds binds its URL. -/
theorem call_own {fs : FileSystem} (b : WebBinder) {c : BindCall}
    (done : c.succeeds fs = true) : Agrees (call fs b c) c.url (some c.bound) := by
  cases c with
  | directory dir url =>
    rw [call, bindDirectory_done b url (of_decide_eq_true done)]
    exact ⟨Std.TreeMap.getElem?_insert_self, Std.TreeMap.getElem?_erase_self⟩
  | file path url =>
    rw [call, bindFile_done b url (of_decide_eq_true done)]
    exact ⟨Std.TreeMap.getElem?_erase_self, Std.TreeMap.getElem?_insert_self⟩

/-- No call changes what another URL is bound to. -/
theorem call_other {fs : FileSystem} {b : WebBinder} {c : BindCall} {url : Bytes}
    {bound : Option Bound} (other : url ≠ c.url) (h : Agrees b url bound) :
    Agrees (call fs b c) url bound := by
  by_cases done : c.succeeds fs = true
  · cases c with
    | directory dir own =>
      rw [call, bindDirectory_done b own (of_decide_eq_true done)]
      exact h.other (Bindings.insert_other other dir) (Bindings.erase_other other)
    | file path own =>
      rw [call, bindFile_done b own (of_decide_eq_true done)]
      exact h.other (Bindings.erase_other other) (Bindings.insert_other other path)
  · rw [call_failed b (Bool.eq_false_iff.mpr done)]
    exact h

theorem ofHistory_concat (history : History) (fs : FileSystem) (c : BindCall) :
    ofHistory (history ++ [(fs, c)]) = call fs (ofHistory history) c := by
  rw [ofHistory, List.foldl_append]
  rfl

theorem lastBound_concat (history : History) (fs : FileSystem) (c : BindCall) (url : Bytes) :
    lastBound (history ++ [(fs, c)]) url =
      if c.succeeds fs = true ∧ c.url = url then some c.bound else lastBound history url := by
  rw [lastBound, List.filter_append]
  split
  · next own =>
    rw [List.filter_cons_of_pos (by simpa using own)]
    simp
  · next other =>
    rw [List.filter_cons_of_neg (by simpa using other), List.filter_nil, List.append_nil, lastBound]

theorem agrees_history (history : History) (url : Bytes) :
    Agrees (ofHistory history) url (lastBound history url) := by
  induction history using List.reverseRecOn with
  | nil => exact ⟨rfl, rfl⟩
  | append_singleton history entry ih =>
    obtain ⟨fs, c⟩ := entry
    rw [ofHistory_concat, lastBound_concat]
    by_cases done : c.succeeds fs = true
    · by_cases own : c.url = url
      · rw [if_pos ⟨done, own⟩, ← own]
        exact call_own _ done
      · rw [if_neg (by simp [own])]
        exact call_other (Ne.symm own) ih
    · rw [if_neg (by simp [done]), call_failed _ (Bool.eq_false_iff.mpr done)]
      exact ih

/-- **Histories.** After any calls no URL is a key of both maps, a further call that
fails changes nothing, and a URL is bound to what the last call for it that succeeded
bound it to. -/
theorem history_bound (history : History) :
    (∀ url, ¬ (url ∈ (ofHistory history).dirBindings ∧ url ∈ (ofHistory history).fileBindings)) ∧
    (∀ fs c, c.succeeds fs = false → call fs (ofHistory history) c = ofHistory history) ∧
    ∀ url, Holds (ofHistory history) url (lastBound history url) := by
  refine ⟨?_, fun fs c => call_failed _, fun url => (agrees_history history url).holds⟩
  rintro url ⟨directory, file⟩
  rw [Std.TreeMap.mem_iff_isSome_getElem?] at directory file
  have agrees := agrees_history history url
  unfold Agrees at agrees
  split at agrees
  · simp [agrees.2] at file
  · simp [agrees.1] at directory
  · simp [agrees.1] at directory

/-! ## Overlapping directories -/

/-- The binding of the shortest directory URL that begins the URL. -/
structure Shortest (b : WebBinder) (url short path : Bytes) : Prop where
  bound : b.dirBindings[short]? = some path
  begins : short <+: url
  least : ∀ other ∈ b.dirBindings, other <+: url → short.length ≤ other.length

/-- The binding of the longest. -/
structure Longest (b : WebBinder) (url long path : Bytes) : Prop where
  bound : b.dirBindings[long]? = some path
  begins : long <+: url
  greatest : ∀ other ∈ b.dirBindings, other <+: url → other.length ≤ long.length

/-- The content of a URL under a directory binding. -/
def contentUnder (fs : FileSystem) (url dirUrl dirPath : Bytes) : Option ResponseData :=
  let path := newUrl url dirUrl dirPath
  (fs.status path).bind fun
    | .directory => getDirectoryContent fs path url
    | .regular => getFileContent fs path
    | _ => some empty

section
variable {b : WebBinder} {url short shortPath long longPath : Bytes}

/-- The shortest is the one that is taken. -/
theorem getContent_shortest (noDirectory : b.dirBindings[url]? = none)
    (noFile : b.fileBindings[url]? = none) (shortest : Shortest b url short shortPath)
    (fs : FileSystem) : b.getContent fs url = contentUnder fs url short shortPath := by
  have through := prefixBinding_eq_some_iff.mpr ⟨shortest.bound, shortest.begins, shortest.least⟩
  rw [getContent, answer_through noDirectory noFile through, contentUnder]
  cases fs.status (newUrl url short shortPath) with
  | none => rfl
  | some type => cases type <;> rfl

theorem newUrl_long (first : short <+: long) (begins : long <+: url) (shortPath : Bytes) :
    newUrl url short shortPath = newUrl long short shortPath ++ url.drop long.length := by
  obtain ⟨middle, rfl⟩ := first
  obtain ⟨rest, rfl⟩ := begins
  simp [newUrl]

/-- A file system of directories without entries. -/
def bareDirectories : FileSystem where
  status _ := some .directory
  read _ := none
  entries _ := some []

/-- A page says which directory it is of. -/
theorem page_inj {dir dir' : Bytes}
    (same : getDirectoryContent bareDirectories dir url =
      getDirectoryContent bareDirectories dir' url) : dir = dir' := by
  simp only [getDirectoryContent, bareDirectories, Option.bind_some, bne_self_eq_false,
    Bool.false_eq_true, ↓reduceIte, Option.map_some, Option.some.injEq, ResponseData.mk.injEq,
    true_and, List.flatMap_nil, List.append_nil] at same
  exact List.append_cancel_left (List.append_cancel_right (List.append_cancel_right same))

/-- **Overlap.** A URL that a directory URL begins has the content of the longest such
exactly if the shortest leads the longest to the directory that is bound to it. -/
theorem longest_iff (noDirectory : b.dirBindings[url]? = none)
    (noFile : b.fileBindings[url]? = none) {dirUrl : Bytes} (bound : dirUrl ∈ b.dirBindings)
    (begins : dirUrl <+: url) :
    ∃ short shortPath long longPath, Shortest b url short shortPath ∧
      Longest b url long longPath ∧
      ((∀ fs, b.getContent fs url = contentUnder fs url long longPath) ↔
        newUrl long short shortPath = longPath) := by
  obtain ⟨long, longPath, held, longBegins, greatest⟩ :=
    Lib.ShortestPrefix.exists_longest bound begins
  cases first : b.prefixBinding url with
  | none => exact absurd begins (Lib.ShortestPrefix.find_none first dirUrl bound)
  | some binding =>
    obtain ⟨short, shortPath⟩ := binding
    obtain ⟨shortHeld, shortBegins, least⟩ := prefixBinding_eq_some_iff.mp first
    refine ⟨short, shortPath, long, longPath, ⟨shortHeld, shortBegins, least⟩,
      ⟨held, longBegins, greatest⟩, ?_⟩
    have member : long ∈ b.dirBindings := by
      rw [Std.TreeMap.mem_iff_isSome_getElem?, held]
      rfl
    have within : short <+: long :=
      List.prefix_of_prefix_length_le shortBegins longBegins (least long member longBegins)
    have taken := getContent_shortest noDirectory noFile ⟨shortHeld, shortBegins, least⟩
    have path := newUrl_long within longBegins shortPath
    constructor
    · intro heard
      have same := page_inj ((taken bareDirectories).symm.trans (heard bareDirectories))
      rw [path] at same
      exact List.append_cancel_right same
    · intro agree fs
      rw [taken fs, contentUnder, contentUnder, path, agree]
      rfl

end

open Lib.FileTree in
/-- A disk with a page in its second directory. -/
def twoDirectories : Disk :=
  .ofEntries
    [([], .directory), ([ascii "one"], .directory), ([ascii "two"], .directory),
      ([ascii "two", ascii "page.html"], .leaf (.regular (ascii "<p>deep</p>")))]
    [] (by decide +kernel) (by decide +kernel) (by decide +kernel) (by decide +kernel)

/-- The two of them bound, one below the other. -/
def nested : WebBinder :=
  ofHistory [(twoDirectories.fileSystem, .directory (ascii "/two") (ascii "/a/b")),
    (twoDirectories.fileSystem, .directory (ascii "/one") (ascii "/a"))]

theorem longest_iff_nested :
    ∃ short shortPath long longPath,
      Shortest nested (ascii "/a/b/page.html") short shortPath ∧
      Longest nested (ascii "/a/b/page.html") long longPath ∧ short.length < long.length ∧
      ((∀ fs, nested.getContent fs (ascii "/a/b/page.html") =
          contentUnder fs (ascii "/a/b/page.html") long longPath) ↔
        newUrl long short shortPath = longPath) := by
  have outer : ascii "/a" ∈ nested.dirBindings := by decide +kernel
  have inner : ascii "/a/b" ∈ nested.dirBindings := by decide +kernel
  obtain ⟨short, shortPath, long, longPath, shortest, longest, served⟩ :=
    longest_iff (by decide +kernel) (by decide +kernel) outer
      (show ascii "/a" <+: ascii "/a/b/page.html" by decide +kernel)
  refine ⟨short, shortPath, long, longPath, shortest, longest, ?_, served⟩
  calc short.length ≤ (ascii "/a").length := shortest.least _ outer (by decide +kernel)
    _ < (ascii "/a/b").length := by decide +kernel
    _ ≤ long.length := longest.greatest _ inner (by decide +kernel)

/-- The page is there, and not found. -/
theorem longer_hidden :
    nested.dirBindings[ascii "/a/b/page.html"]? = none ∧
    nested.fileBindings[ascii "/a/b/page.html"]? = none ∧
    Longest nested (ascii "/a/b/page.html") (ascii "/a/b") (ascii "/two") ∧
    contentUnder twoDirectories.fileSystem (ascii "/a/b/page.html") (ascii "/a/b") (ascii "/two") =
      some ⟨ascii "text/html", ascii "<p>deep</p>"⟩ ∧
    nested.getContent twoDirectories.fileSystem (ascii "/a/b/page.html") = some empty := by
  refine ⟨by decide +kernel, by decide +kernel, ⟨by decide +kernel, by decide +kernel, ?_⟩,
    by decide +kernel, by decide +kernel⟩
  intro other held _
  have each : ∀ key ∈ nested.dirBindings.keys, key.length ≤ (ascii "/a/b").length := by
    decide +kernel
  exact each other (Std.TreeMap.mem_keys.mpr held)

end Http2Server.WebBinder
