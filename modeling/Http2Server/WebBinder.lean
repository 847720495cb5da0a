import Http2Server.Files
import Std.Data.TreeMap.Lemmas

/-!
# Bindings and content

`ResponseData` and `WebBinder`: which file or directory a URL stands for, and
the bytes served for it. `answer` is the choice `getContent` makes, apart from
the reading of what it chose; `none` is always a `filesystem_error`.
-/

namespace Http2Server

structure ResponseData where
  mimeType : Bytes := []
  data : Bytes := []
  deriving DecidableEq, Repr

namespace ResponseData

/-- `::tolower` in the C locale. -/
def toLower (c : Byte) : Byte := if 0x41 ≤ c ∧ c ≤ 0x5a then c + 0x20 else c

/-- What stands after the last dot, if there is one. -/
def extension (path : Bytes) : Option Bytes :=
  if 0x2e ∈ path then some (path.reverse.takeWhile (· != 0x2e)).reverse else none

def getMimeType (path : Bytes) : Bytes :=
  match extension path with
  | none => ascii "application/octet-stream"
  | some ext =>
    let ext := ext.map toLower
    if ext = ascii "html" ∨ ext = ascii "htm" then ascii "text/html"
    else if ext = ascii "css" then ascii "text/css"
    else if ext = ascii "js" then ascii "application/javascript"
    else if ext = ascii "json" then ascii "application/json"
    else if ext = ascii "png" then ascii "image/png"
    else if ext = ascii "jpg" ∨ ext = ascii "jpeg" then ascii "image/jpeg"
    else if ext = ascii "gif" then ascii "image/gif"
    else if ext = ascii "svg" then ascii "image/svg+xml"
    else if ext = ascii "txt" then ascii "text/plain"
    else if ext = ascii "xml" then ascii "application/xml"
    else if ext = ascii "pdf" then ascii "application/pdf"
    else ascii "application/octet-stream"

/-- The bytes `readFromFile` leaves in `data`; its result is never looked at. -/
def readFromFile (fs : FileSystem) (path : Bytes) : Bytes := (fs.read path).getD []

def fromPath (fs : FileSystem) (path : Bytes) : ResponseData :=
  ⟨getMimeType path, readFromFile fs path⟩

theorem length_choice {c : Prop} [Decidable c] {a b : Bytes} (ha : a.length < 127)
    (hb : b.length < 127) : (if c then a else b).length < 127 := by
  split
  · exact ha
  · exact hb

theorem length_getMimeType (path : Bytes) : (getMimeType path).length < 127 := by
  unfold getMimeType
  split
  · decide +kernel
  · repeat refine length_choice (by decide +kernel) ?_
    decide +kernel

end ResponseData

/-- `http2::status::getMessage` -/
def statusMessage (code : Nat) : Bytes :=
  match code with
  | 200 => ascii "OK"
  | 204 => ascii "No Content"
  | 400 => ascii "Bad Request"
  | 401 => ascii "Unauthorized"
  | 403 => ascii "Forbidden"
  | 404 => ascii "Not Found"
  | 500 => ascii "Internal Server Error"
  | 501 => ascii "Not Implemented"
  | 503 => ascii "Service Unavailable"
  | _ => ascii "Unknown Status Code"

/-- `std::map<std::string, std::string>`: keys in byte order. -/
abbrev Bindings := Std.TreeMap Bytes Bytes

namespace Bindings

variable {t : Bindings} {url other : Bytes}

theorem insert_other (h : other ≠ url) (path : Bytes) :
    (t.insert url path)[other]? = t[other]? := by
  rw [Std.TreeMap.getElem?_insert, if_neg]
  rw [Std.LawfulEqCmp.compare_eq_iff_eq]
  exact Ne.symm h

theorem erase_other (h : other ≠ url) : (t.erase url)[other]? = t[other]? := by
  rw [Std.TreeMap.getElem?_erase, if_neg]
  rw [Std.LawfulEqCmp.compare_eq_iff_eq]
  exact Ne.symm h

end Bindings

structure WebBinder where
  dirBindings : Bindings := ∅
  fileBindings : Bindings := ∅

/-- What `getContent` serves: a directory's listing under a URL, a file, or
`empty`. -/
inductive Answer where
  | directory (dir boundUrl : Bytes)
  | file (path : Bytes)
  | nothing
  deriving DecidableEq, Repr

namespace WebBinder

def empty : ResponseData := ⟨ascii "text/plain", []⟩

def bindDirectory (fs : FileSystem) (b : WebBinder) (dir url : Bytes) :
    Option (Bool × WebBinder) :=
  (fs.status dir).map fun type =>
    if type != .directory then (false, b)
    else (true, ⟨b.dirBindings.insert url dir, b.fileBindings.erase url⟩)

def bindFile (fs : FileSystem) (b : WebBinder) (file url : Bytes) : Option WebBinder :=
  (fs.status file).map fun type =>
    if type != .regular then b
    else ⟨b.dirBindings.erase url, b.fileBindings.insert url file⟩

section
variable {fs : FileSystem} {b b' : WebBinder} {dir file url : Bytes}

theorem bindDirectory_done (b : WebBinder) (url : Bytes) (h : fs.status dir = some .directory) :
    bindDirectory fs b dir url =
      some (true, ⟨b.dirBindings.insert url dir, b.fileBindings.erase url⟩) := by
  simp [bindDirectory, h]

theorem bindFile_done (b : WebBinder) (url : Bytes) (h : fs.status file = some .regular) :
    bindFile fs b file url = some ⟨b.dirBindings.erase url, b.fileBindings.insert url file⟩ := by
  simp [bindFile, h]

/-- A directory is bound, or nothing is changed. -/
theorem bindDirectory_cases {ok : Bool} (h : bindDirectory fs b dir url = some (ok, b')) :
    fs.status dir = some .directory ∧ ok = true ∧
        b' = ⟨b.dirBindings.insert url dir, b.fileBindings.erase url⟩ ∨
      fs.status dir ≠ some .directory ∧ ok = false ∧ b' = b := by
  by_cases directory : fs.status dir = some .directory
  · rw [bindDirectory_done b url directory] at h
    cases h
    exact .inl ⟨directory, rfl, rfl⟩
  · obtain ⟨type, status, made⟩ := Option.map_eq_some_iff.mp h
    have other : type ≠ .directory := by
      rintro rfl
      exact directory status
    rw [if_pos (bne_iff_ne.mpr other)] at made
    cases made
    exact .inr ⟨directory, rfl, rfl⟩

theorem bindFile_cases (h : bindFile fs b file url = some b') :
    fs.status file = some .regular ∧
        b' = ⟨b.dirBindings.erase url, b.fileBindings.insert url file⟩ ∨
      fs.status file ≠ some .regular ∧ b' = b := by
  by_cases regular : fs.status file = some .regular
  · rw [bindFile_done b url regular] at h
    cases h
    exact .inl ⟨regular, rfl⟩
  · obtain ⟨type, status, made⟩ := Option.map_eq_some_iff.mp h
    have other : type ≠ .regular := by
      rintro rfl
      exact regular status
    rw [if_pos (bne_iff_ne.mpr other)] at made
    cases made
    exact .inr ⟨regular, rfl⟩

end

def getFileContent (fs : FileSystem) (file : Bytes) : Option ResponseData :=
  (fs.status file).map fun type =>
    if type != .regular then empty
    else if (fs.read file).isNone then empty
    else .fromPath fs file

/-- One entry of a directory's page. -/
def listItem (boundUrl : Bytes) : Bytes × FileType → Bytes
  | (name, .directory) =>
    ascii "<li><img src=\"/html/folder.png\" alt=\"Folder Icon\" style=\"width:16px;height:16px;\"> " ++
      ascii "<a href=\"" ++ boundUrl ++ name ++ ascii "/\">" ++ name ++ ascii "/</a></li>"
  | (name, .regular) =>
    ascii "<li><img src=\"/html/file.png\" alt=\"File Icon\" style=\"width:16px;height:16px;\"> " ++
      ascii "<a href=\"" ++ boundUrl ++ name ++ ascii "\">" ++ name ++ ascii "</a></li>"
  | (_, _) => []

/-- `back()` of an empty URL is undefined; it is read as no slash. -/
def getDirectoryContent (fs : FileSystem) (dir boundUrl : Bytes) : Option ResponseData :=
  (fs.status dir).bind fun type =>
    if type != .directory then some empty
    else
      let boundUrl := if boundUrl.getLast? != some 0x2f then boundUrl ++ [0x2f] else boundUrl
      (fs.entries dir).map fun entries =>
        ⟨ascii "text/html",
          ascii "<html><body><h1>Index for " ++ dir ++ ascii "</h1><ul>" ++
            entries.flatMap (listItem boundUrl) ++ ascii "</ul></body></html>"⟩

/-- The first directory binding, in key order, whose URL begins `url`. -/
def prefixBinding (b : WebBinder) (url : Bytes) : Option (Bytes × Bytes) :=
  b.dirBindings.toList.find? fun binding => binding.1.isPrefixOf url

/-- `newUrl` -/
def newUrl (url dirUrl dirPath : Bytes) : Bytes := dirPath ++ url.drop dirUrl.length

/-- The branches on what stands at `newUrl`. -/
def answerAt (newUrl url : Bytes) : FileType → Answer
  | .directory => .directory newUrl url
  | .regular => .file newUrl
  | _ => .nothing

def answer (fs : FileSystem) (b : WebBinder) (url : Bytes) : Option Answer :=
  match b.dirBindings[url]?, b.fileBindings[url]?, b.prefixBinding url with
  | some dir, _, _ => some (.directory dir url)
  | none, some file, _ => some (.file file)
  | none, none, some (dirUrl, dirPath) =>
    let newUrl := newUrl url dirUrl dirPath
    (fs.status newUrl).map (answerAt newUrl url)
  | none, none, none => some .nothing

def getContent (fs : FileSystem) (b : WebBinder) (url : Bytes) : Option ResponseData :=
  (b.answer fs url).bind fun
    | .directory dir boundUrl => getDirectoryContent fs dir boundUrl
    | .file path => getFileContent fs path
    | .nothing => some empty

def getErrorPage (errorCode : Nat) : ResponseData :=
  ⟨ascii "text/html",
    ascii "<!DOCTYPE html><html><head><title>Error " ++ decimal errorCode ++
      ascii "</title></head><body>" ++ ascii "<h1>Error " ++ decimal errorCode ++ ascii "</h1>" ++
      ascii "<p>Error Message: " ++ statusMessage errorCode ++ ascii "</p>"⟩

/-- The MIME type of what is served has an extension it belongs to. -/
theorem getContent_mimeType {fs : FileSystem} {b : WebBinder} {url : Bytes}
    {content : ResponseData} (h : b.getContent fs url = some content) :
    ∃ path, content.mimeType = ResponseData.getMimeType path := by
  have plain : ∃ path, empty.mimeType = ResponseData.getMimeType path :=
    ⟨ascii "a.txt", by decide +kernel⟩
  obtain ⟨answer, _, served⟩ := Option.bind_eq_some_iff.mp h
  cases answer with
  | directory dir boundUrl =>
    obtain ⟨type, _, page⟩ := Option.bind_eq_some_iff.mp served
    split at page
    · rw [← Option.some.inj page]
      exact plain
    · obtain ⟨entries, _, rfl⟩ := Option.map_eq_some_iff.mp page
      refine ⟨ascii "a.html", ?_⟩
      show ascii "text/html" = _
      decide +kernel
  | file path =>
    obtain ⟨type, _, rfl⟩ := Option.map_eq_some_iff.mp served
    split
    · exact plain
    · split
      · exact plain
      · exact ⟨path, rfl⟩
  | nothing =>
    rw [← Option.some.inj served]
    exact plain

/-- The bindings `main` starts the server with. -/
def ofMain (fs : FileSystem) : Option WebBinder :=
  (bindDirectory fs {} (ascii "./html/") (ascii "/html")).bind fun (_, b) =>
    bindFile fs b (ascii "./html/reallyCoolSite.html") (ascii "/")

end WebBinder

open Lib.FileTree in
/-- A working directory to start the server in: the pages, and the key `Socket`
reads. -/
def siteDisk : Disk :=
  .ofEntries
    [([], .directory), ([ascii "srv"], .directory),
      ([ascii "srv", ascii "html"], .directory),
      ([ascii "srv", ascii "html", ascii "reallyCoolSite.html"],
        .leaf (.regular (ascii "<p>cool</p>"))),
      ([ascii "srv", ascii "server.key"], .leaf (.regular (ascii "KEY")))]
    [ascii "srv"] (by decide +kernel) (by decide +kernel) (by decide +kernel) (by decide +kernel)

end Http2Server
