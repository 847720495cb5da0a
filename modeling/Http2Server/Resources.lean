import Http2Server.Confinement
import Http2Server.Lib.ShortestPrefix
import Http2Server.OkResponse

/-!
# The status of an answer

`Resolves` says what a path stands for under the bindings, be it a file of no
bytes. `getContent` returns no data where there is nothing, so that such a file is
answered like one that is missing, and an error of the file system is not answered
at all. `answers_iff` says that the status is right in every other case.
-/

namespace Http2Server

namespace WebBinder

/-! ## What a path resolves to -/

/-- The bindings lead a URL to a path, where things of that type are served: one
that is bound to what was bound, any other through the shortest directory URL
that begins it. -/
inductive Leads (b : WebBinder) (url : Bytes) : Bytes → FileType → Prop
  | directory {dir : Bytes} (bound : b.dirBindings[url]? = some dir) : Leads b url dir .directory
  | file {file : Bytes} (noDirectory : b.dirBindings[url]? = none)
      (bound : b.fileBindings[url]? = some file) : Leads b url file .regular
  | under {dirUrl dirPath : Bytes} {type : FileType} (noDirectory : b.dirBindings[url]? = none)
      (noFile : b.fileBindings[url]? = none) (bound : b.dirBindings[dirUrl]? = some dirPath)
      (begins : dirUrl <+: url)
      (shortest : ∀ other ∈ b.dirBindings, other <+: url → dirUrl.length ≤ other.length)
      (served : type = .directory ∨ type = .regular) :
      Leads b url (dirPath ++ url.drop dirUrl.length) type

inductive Resource where
  | directory
  | file (content : Bytes)
  deriving DecidableEq, Repr

/-- The URL stands for an existing directory, or for a regular file that can be read. -/
inductive Resolves (fs : FileSystem) (b : WebBinder) (url : Bytes) : Resource → Prop
  | directory {path : Bytes} (leads : Leads b url path .directory)
      (stands : fs.status path = some .directory) : Resolves fs b url .directory
  | file {path content : Bytes} (leads : Leads b url path .regular)
      (stands : fs.status path = some .regular) (read : fs.read path = some content) :
      Resolves fs b url (.file content)

/-- The file system raises an error for what the URL leads to. -/
inductive Fails (fs : FileSystem) (b : WebBinder) (url : Bytes) : Prop
  | status {path : Bytes} {type : FileType} (leads : Leads b url path type)
      (error : fs.status path = none)
  | entries {path : Bytes} (leads : Leads b url path .directory)
      (stands : fs.status path = some .directory) (error : fs.entries path = none)

/-- The first binding in key order is the one with the shortest URL. -/
theorem prefixBinding_eq_some_iff {b : WebBinder} {url dirUrl dirPath : Bytes} :
    b.prefixBinding url = some (dirUrl, dirPath) ↔
      b.dirBindings[dirUrl]? = some dirPath ∧ dirUrl <+: url ∧
        ∀ other ∈ b.dirBindings, other <+: url → dirUrl.length ≤ other.length :=
  Lib.ShortestPrefix.find_eq_some_iff

section
variable {fs : FileSystem} {b : WebBinder} {url path : Bytes} {type : FileType}

/-- Only one path is led to. -/
theorem Leads.unique {path' : Bytes} {type' : FileType} (h : Leads b url path type)
    (h' : Leads b url path' type') : path = path' := by
  cases h with
  | directory bound =>
    cases h' with
    | directory bound' => exact Option.some.inj (bound.symm.trans bound')
    | file noDirectory => cases noDirectory.symm.trans bound
    | under noDirectory => cases noDirectory.symm.trans bound
  | file noDirectory bound =>
    cases h' with
    | directory bound' => cases noDirectory.symm.trans bound'
    | file _ bound' => exact Option.some.inj (bound.symm.trans bound')
    | under _ noFile => cases noFile.symm.trans bound
  | under noDirectory noFile bound begins shortest =>
    cases h' with
    | directory bound' => cases noDirectory.symm.trans bound'
    | file _ bound' => cases noFile.symm.trans bound'
    | under _ _ bound' begins' shortest' =>
      have first := prefixBinding_eq_some_iff.mpr ⟨bound, begins, shortest⟩
      have first' := prefixBinding_eq_some_iff.mpr ⟨bound', begins', shortest'⟩
      cases first.symm.trans first'
      rfl

theorem Leads.directory_iff (leads : Leads b url path type) (fs : FileSystem) :
    Resolves fs b url .directory ↔
      Leads b url path .directory ∧ fs.status path = some .directory := by
  constructor
  · rintro ⟨leads', stands⟩
    cases leads.unique leads'
    exact ⟨leads', stands⟩
  · rintro ⟨leads', stands⟩
    exact .directory leads' stands

theorem Leads.file_iff (leads : Leads b url path type) (fs : FileSystem) (content : Bytes) :
    Resolves fs b url (.file content) ↔
      Leads b url path .regular ∧ fs.status path = some .regular ∧
        fs.read path = some content := by
  constructor
  · rintro (_ | ⟨leads', stands, read⟩)
    cases leads.unique leads'
    exact ⟨leads', stands, read⟩
  · rintro ⟨leads', stands, read⟩
    exact .file leads' stands read

theorem Leads.fails_iff (leads : Leads b url path type) (fs : FileSystem) :
    Fails fs b url ↔ fs.status path = none ∨
      Leads b url path .directory ∧ fs.status path = some .directory ∧
        fs.entries path = none := by
  constructor
  · rintro (⟨leads', error⟩ | ⟨leads', stands, error⟩)
    · cases leads.unique leads'
      exact .inl error
    · cases leads.unique leads'
      exact .inr ⟨leads', stands, error⟩
  · rintro (error | ⟨leads', stands, error⟩)
    · exact .status leads error
    · exact .entries leads' stands error

/-- A path resolves to one thing only. -/
theorem Resolves.unique {r r' : Resource} (h : Resolves fs b url r) (h' : Resolves fs b url r') :
    r = r' := by
  cases h with
  | directory leads stands =>
    cases r' with
    | directory => rfl
    | file content =>
      obtain ⟨_, stands', _⟩ := (leads.file_iff fs content).mp h'
      cases stands.symm.trans stands'
  | file leads stands read =>
    cases r' with
    | directory =>
      obtain ⟨_, stands'⟩ := (leads.directory_iff fs).mp h'
      cases stands.symm.trans stands'
    | file content =>
      obtain ⟨_, _, read'⟩ := (leads.file_iff fs content).mp h'
      rw [Option.some.inj (read.symm.trans read')]

/-- Reading a file raises no error. -/
theorem Resolves.not_fails {content : Bytes} (h : Resolves fs b url (.file content)) :
    ¬ Fails fs b url := by
  cases h with
  | file leads stands =>
    rw [leads.fails_iff, stands]
    simp

/-! ## What is returned for it -/

theorem Leads.served (h : Leads b url path type) : type = .directory ∨ type = .regular := by
  cases h with
  | directory => exact .inl rfl
  | file => exact .inr rfl
  | under _ _ _ _ _ served => exact served

theorem getContent_error (leads : Leads b url path type) (error : fs.status path = none) :
    b.getContent fs url = none := by
  cases leads with
  | directory bound => simp [getContent, answer, bound, getDirectoryContent, error]
  | file noDirectory bound => simp [getContent, answer, noDirectory, bound, getFileContent, error]
  | under noDirectory noFile bound begins shortest =>
    have through := prefixBinding_eq_some_iff.mpr ⟨bound, begins, shortest⟩
    rw [getContent, answer_through noDirectory noFile through, newUrl, error]
    rfl

/-- What a path is led to stands there. -/
theorem getContent_stands (leads : Leads b url path type) (stands : fs.status path = some type) :
    b.getContent fs url =
      if type = .directory then getDirectoryContent fs path url else getFileContent fs path := by
  cases leads with
  | directory bound => simp [getContent, answer, bound]
  | file noDirectory bound => simp [getContent, answer, noDirectory, bound]
  | under noDirectory noFile bound begins shortest served =>
    have through := prefixBinding_eq_some_iff.mpr ⟨bound, begins, shortest⟩
    rw [getContent, answer_through noDirectory noFile through, newUrl, stands]
    rcases served with rfl | rfl <;> rfl

/-- Something else stands there. -/
theorem getContent_other {found : FileType} (leads : Leads b url path type)
    (stands : fs.status path = some found) (other : ¬ Leads b url path found) :
    b.getContent fs url = some empty := by
  cases leads with
  | directory bound =>
    have wrong : found ≠ .directory := by
      rintro rfl
      exact other (.directory bound)
    simp [getContent, answer, bound, getDirectoryContent, stands, wrong]
  | file noDirectory bound =>
    have wrong : found ≠ .regular := by
      rintro rfl
      exact other (.file noDirectory bound)
    simp [getContent, answer, noDirectory, bound, getFileContent, stands, wrong]
  | under noDirectory noFile bound begins shortest =>
    have through := prefixBinding_eq_some_iff.mpr ⟨bound, begins, shortest⟩
    rw [getContent, answer_through noDirectory noFile through, newUrl, stands]
    cases found with
    | directory =>
      exact absurd (.under noDirectory noFile bound begins shortest (.inl rfl)) other
    | regular =>
      exact absurd (.under noDirectory noFile bound begins shortest (.inr rfl)) other
    | notFound => rfl
    | other => rfl

theorem getContent_unbound (unbound : ∀ path type, ¬ Leads b url path type) :
    b.getContent fs url = some empty := by
  cases hd : b.dirBindings[url]? with
  | some dir => exact absurd (.directory hd) (unbound dir .directory)
  | none =>
    cases hf : b.fileBindings[url]? with
    | some file => exact absurd (.file hd hf) (unbound file .regular)
    | none =>
      cases hp : b.prefixBinding url with
      | none => simp [getContent, answer, hd, hf, hp]
      | some binding =>
        obtain ⟨bound, begins, shortest⟩ := prefixBinding_eq_some_iff.mp hp
        exact absurd (.under hd hf bound begins shortest (.inl rfl)) (unbound _ .directory)

end

/-- What `getContent` returns for a path, by what the path resolves to. -/
inductive Content (fs : FileSystem) (b : WebBinder) (url : Bytes) : Option ResponseData → Prop
  | error (fails : Fails fs b url) : Content fs b url none
  | page {content : ResponseData} (resolves : Resolves fs b url .directory)
      (listed : ¬ Fails fs b url) (some : content.data ≠ []) : Content fs b url (.some content)
  | file {content : ResponseData} (resolves : Resolves fs b url (.file content.data)) :
      Content fs b url (.some content)
  | nothing (unresolved : ¬ ∃ r, Resolves fs b url r) (passed : ¬ Fails fs b url) :
      Content fs b url (.some empty)

section
variable {fs : FileSystem} {b : WebBinder} {url path : Bytes} {type : FileType}

/-- Where something else stands, nothing is returned. -/
theorem Content.other {found : FileType} (leads : Leads b url path type)
    (stands : fs.status path = some found) (other : ¬ Leads b url path found) :
    Content fs b url (some empty) := by
  apply Content.nothing
  · rintro ⟨r, resolves⟩
    cases r with
    | directory =>
      obtain ⟨leads', stands'⟩ := (leads.directory_iff fs).mp resolves
      cases stands.symm.trans stands'
      exact other leads'
    | file content =>
      obtain ⟨leads', stands', _⟩ := (leads.file_iff fs content).mp resolves
      cases stands.symm.trans stands'
      exact other leads'
  · rw [leads.fails_iff, stands]
    rintro (error | ⟨leads', stands', _⟩)
    · cases error
    · cases stands'
      exact other leads'

theorem Content.directory (leads : Leads b url path .directory)
    (stands : fs.status path = some .directory) :
    Content fs b url (getDirectoryContent fs path url) := by
  rw [getDirectoryContent, stands]
  cases listed : fs.entries path with
  | none =>
    exact .error (.entries leads stands listed)
  | some entries =>
    refine .page (.directory leads stands) ?_ (by simp [ascii])
    rw [leads.fails_iff, stands, listed]
    simp

theorem Content.regular (leads : Leads b url path .regular)
    (stands : fs.status path = some .regular) :
    Content fs b url (getFileContent fs path) := by
  rw [getFileContent, stands]
  cases read : fs.read path with
  | none =>
    apply Content.nothing
    · rintro ⟨r, resolves⟩
      cases r with
      | directory =>
        obtain ⟨_, stands'⟩ := (leads.directory_iff fs).mp resolves
        cases stands.symm.trans stands'
      | file content =>
        obtain ⟨_, _, read'⟩ := (leads.file_iff fs content).mp resolves
        cases read.symm.trans read'
    · rw [leads.fails_iff, stands]
      simp
  | some content =>
    apply Content.file
    simp only [ResponseData.fromPath, ResponseData.readFromFile, read, Option.getD_some]
    exact .file leads stands read

/-- **Content.** A page for a directory, the bytes of a file, `empty` for nothing. -/
theorem content_getContent (fs : FileSystem) (b : WebBinder) (url : Bytes) :
    Content fs b url (b.getContent fs url) := by
  by_cases led : ∃ path type, Leads b url path type
  · obtain ⟨path, type, leads⟩ := led
    cases stands : fs.status path with
    | none =>
      rw [getContent_error leads stands]
      exact .error (.status leads stands)
    | some found =>
      by_cases served : Leads b url path found
      · rw [getContent_stands served stands]
        rcases served.served with rfl | rfl
        · exact .directory served stands
        · exact .regular served stands
      · rw [getContent_other leads stands served]
        exact .other leads stands served
  · simp only [not_exists] at led
    rw [getContent_unbound led]
    apply Content.nothing
    · rintro ⟨r, ⟨leads, _⟩ | ⟨leads, _⟩⟩ <;> exact led _ _ leads
    · rintro (⟨leads, _⟩ | ⟨leads, _⟩) <;> exact led _ _ leads

end

/-- A disk raises no errors. -/
theorem not_fails_disk (d : Disk) (b : WebBinder) (url : Bytes) : ¬ Fails d.fileSystem b url := by
  rintro (⟨_, error⟩ | ⟨_, stands, error⟩)
  · simp [Disk.fileSystem] at error
  · obtain ⟨loc, found, _⟩ := d.resolve_of_status stands (by simp)
    simp [Disk.fileSystem, found] at error

end WebBinder

namespace FrameHandler

open WebBinder

/-! ## The response to a request -/

/-- The bytes that a completed block puts on the connection. -/
def reply (env : Env) (s : Session) (strm : Stream) : Bytes :=
  (processEndHeader env s strm).2.2.written.drop s.written.length

/-- The reply is one response with that status and body. -/
def Responds (env : Env) (s : Session) (strm : Stream) (status body : Bytes) : Prop :=
  ∃ headers, Arrives strm.id (reply env s strm) (⟨ascii ":status", status⟩ :: headers) body

/-- A request for `path` is answered by what the path resolves to. -/
structure Answers (env : Env) (s : Session) (strm : Stream) (path : Bytes) : Prop where
  ok : (∃ body, Responds env s strm (ascii "200") body) ↔
    ∃ r, Resolves env.files env.binder path r
  content : ∀ content, Resolves env.files env.binder path (.file content) →
    Responds env s strm (ascii "200") content
  notFound : (¬ ∃ r, Resolves env.files env.binder path r) →
    ∃ body, Responds env s strm (ascii "404") body

theorem Responds.unique {env : Env} {s : Session} {strm : Stream} {status status' : Bytes}
    {body body' : Bytes} (h : Responds env s strm status body)
    (h' : Responds env s strm status' body') : status = status' ∧ body = body' := by
  obtain ⟨headers, arrives⟩ := h
  obtain ⟨headers', arrives'⟩ := h'
  obtain ⟨same, bodies⟩ := arrives.unique arrives'
  rw [List.cons.injEq, Header.mk.injEq] at same
  exact ⟨same.1.2, bodies⟩

section
variable {env : Env} {s : Session} {strm : Stream} {path : Bytes}

theorem reply_of {bytes : Bytes}
    (h : (processEndHeader env s strm).2.2.written = s.written ++ bytes) :
    reply env s strm = bytes := by
  rw [reply, h, List.drop_left]

theorem processEndHeader_requested (requested : requestPath s strm = some path) :
    (processEndHeader env s strm).2.2 =
      (serve env { s with hpackDecoder := (decoded s strm).table } (received s strm)).2 := by
  rw [processEndHeader_eq, if_neg (by simp [requested])]

/-- After an exception of the file system nothing is sent. -/
theorem reply_error (requested : requestPath s strm = some path)
    (error : env.binder.getContent env.files path = none) : reply env s strm = [] := by
  apply reply_of
  rw [processEndHeader_requested requested, serve_eq env _ _ (first_received requested), error,
    List.append_nil]
  rfl

/-- Content without data is answered by the error page. -/
theorem responds_notFound (hid : strm.id < 2 ^ 31) (full : FullWrites env)
    (requested : requestPath s strm = some path) {content : ResponseData}
    (found : env.binder.getContent env.files path = some content) (blank : content.data = []) :
    ∃ body, Responds env s strm (ascii "404") body := by
  obtain ⟨buffers, packed, arrives⟩ :=
    responseBuffers_arrive hid (getErrorPage 404).data short_errorHeaders (by decide)
  rw [errorBuffers_some, Option.some.injEq] at packed
  refine ⟨(getErrorPage 404).data, (errorHeaders 404 (getErrorPage 404)).tail, ?_⟩
  have sent : reply env s strm = (errorBuffers strm.id).flatten := by
    apply reply_of
    rw [processEndHeader_requested requested, serve_eq env _ _ (first_received requested), found]
    simp only [blank, ↓reduceIte, full.written, received_id]
    rfl
  rw [sent, packed]
  exact arrives

/-- Content with data is answered by its data. -/
theorem responds_ok (hid : strm.id < 2 ^ 31) (full : FullWrites env)
    (requested : requestPath s strm = some path) (shortPath : path.length < 127)
    {content : ResponseData} (found : env.binder.getContent env.files path = some content)
    (size : content.data.length < 2 ^ 64) (some : content.data ≠ []) :
    Responds env s strm (ascii "200") content.data := by
  obtain ⟨file, mime⟩ := getContent_mimeType found
  have short := short_okHeaders shortPath (mime ▸ ResponseData.length_getMimeType file) size
  obtain ⟨buffers, packed, arrives⟩ :=
    responseBuffers_arrive hid content.data short (by simp [okHeaders])
  refine ⟨(okHeaders path content).tail, ?_⟩
  have sent : reply env s strm = buffers.flatten := by
    apply reply_of
    rw [processEndHeader_requested requested, serve_eq env _ _ (first_received requested), found]
    simp only [some, ↓reduceIte, okBuffers, received_id, packed, full.succeed, full.written]
    rfl
  rw [sent]
  exact arrives

/-- An answer with the body of what the path resolves to. -/
theorem answers_of_ok {r : Resource} {body : Bytes}
    (ok : Responds env s strm (ascii "200") body) (resolves : Resolves env.files env.binder path r)
    (whole : ∀ content, r = .file content → body = content) : Answers env s strm path where
  ok := iff_of_true ⟨body, ok⟩ ⟨r, resolves⟩
  content := by
    intro content file
    rw [← whole content (resolves.unique file)]
    exact ok
  notFound := by
    intro unresolved
    exact absurd ⟨r, resolves⟩ unresolved

theorem answers_of_notFound {body : Bytes} (notFound : Responds env s strm (ascii "404") body)
    (unresolved : ¬ ∃ r, Resolves env.files env.binder path r) : Answers env s strm path where
  ok := by
    refine iff_of_false ?_ unresolved
    rintro ⟨body', ok⟩
    exact absurd (ok.unique notFound).1 (by decide)
  content := by
    intro content file
    exact absurd ⟨_, file⟩ unresolved
  notFound := by
    intro _
    exact ⟨body, notFound⟩

theorem not_answers_of_blank {body : Bytes} (notFound : Responds env s strm (ascii "404") body)
    (blank : Resolves env.files env.binder path (.file [])) : ¬ Answers env s strm path := by
  intro answers
  exact absurd ((answers.content [] blank).unique notFound).1 (by decide)

theorem not_answers_of_nil (silent : reply env s strm = []) : ¬ Answers env s strm path := by
  have unanswered (status body : Bytes) : ¬ Responds env s strm status body := by
    rintro ⟨headers, arrives⟩
    rw [silent] at arrives
    exact not_arrives_nil arrives
  intro answers
  by_cases resolved : ∃ r, Resolves env.files env.binder path r
  · obtain ⟨body, ok⟩ := answers.ok.mpr resolved
    exact unanswered _ body ok
  · obtain ⟨body, notFound⟩ := answers.notFound resolved
    exact unanswered _ body notFound

/-- **The status of an answer.** A request is answered by what its path resolves
to, unless that is a file of no bytes or the file system raises an error. -/
theorem answers_iff (hid : strm.id < 2 ^ 31) (requested : requestPath s strm = some path)
    (shortPath : path.length < 127)
    (size : ∀ content ∈ env.binder.getContent env.files path, content.data.length < 2 ^ 64)
    (full : FullWrites env) :
    Answers env s strm path ↔
      ¬ Resolves env.files env.binder path (.file []) ∧ ¬ Fails env.files env.binder path := by
  have content := content_getContent env.files env.binder path
  generalize found : env.binder.getContent env.files path = result at content size
  cases content with
  | error fails =>
    refine iff_of_false (not_answers_of_nil (reply_error requested found)) ?_
    rintro ⟨_, passed⟩
    exact passed fails
  | @page content resolves listed some =>
    have ok := responds_ok hid full requested shortPath found (size content rfl) some
    refine iff_of_true (answers_of_ok ok resolves (by simp)) ⟨?_, listed⟩
    intro blank
    cases resolves.unique blank
  | @file content resolves =>
    by_cases blank : content.data = []
    · obtain ⟨body, notFound⟩ := responds_notFound hid full requested found blank
      rw [blank] at resolves
      refine iff_of_false (not_answers_of_blank notFound resolves) ?_
      rintro ⟨some, _⟩
      exact some resolves
    · have ok := responds_ok hid full requested shortPath found (size content rfl) blank
      refine iff_of_true (answers_of_ok ok resolves (by simp)) ⟨?_, resolves.not_fails⟩
      intro empty
      exact blank (Resource.file.inj (resolves.unique empty))
  | nothing unresolved passed =>
    obtain ⟨body, notFound⟩ := responds_notFound hid full requested found rfl
    refine iff_of_true (answers_of_notFound notFound unresolved) ⟨?_, passed⟩
    intro blank
    exact unresolved ⟨_, blank⟩

end

/-- A request for the page of `main`. -/
def pageRequest : Stream := { id := 1, headerFragments := [0x82, 0x84] }

theorem answers_iff_page : Answers siteEnv {} pageRequest (ascii "/") := by
  refine (answers_iff (by decide) (by decide +kernel) (by decide) (by decide +kernel)
    (fun _ _ => rfl)).mpr ⟨?_, not_fails_disk siteDisk _ _⟩
  intro blank
  have leads : Leads siteEnv.binder (ascii "/") (ascii "./html/reallyCoolSite.html") .regular :=
    .file (by decide +kernel) (by decide +kernel)
  have page : Resolves siteEnv.files siteEnv.binder (ascii "/") (.file (ascii "<p>cool</p>")) :=
    .file leads (by decide +kernel) (by decide +kernel)
  exact absurd (page.unique blank) (by decide)

open Lib.FileTree in
/-- A disk with one file, of no bytes. -/
def blankDisk : Disk :=
  .ofEntries [([], .directory), ([ascii "blank.txt"], .leaf (.regular []))] [] (by decide +kernel)
    (by decide +kernel) (by decide +kernel) (by decide +kernel)

/-- The server with that file bound to the root. -/
def blankEnv : Env where
  files := blankDisk.fileSystem
  binder := (bindFile blankDisk.fileSystem {} (ascii "/blank.txt") (ascii "/")).getD {}
  sslWrite _ data := data.length

/-- The file is there, and answered as if it were not. -/
theorem blank_not_answered :
    requestPath {} pageRequest = some (ascii "/") ∧
    Resolves blankEnv.files blankEnv.binder (ascii "/") (.file []) ∧
    ¬ Answers blankEnv {} pageRequest (ascii "/") := by
  have requested : requestPath {} pageRequest = some (ascii "/") := by decide +kernel
  have leads : Leads blankEnv.binder (ascii "/") (ascii "/blank.txt") .regular :=
    .file (by decide +kernel) (by decide +kernel)
  have blank : Resolves blankEnv.files blankEnv.binder (ascii "/") (.file []) :=
    .file leads (by decide +kernel) (by decide +kernel)
  have found : blankEnv.binder.getContent blankEnv.files (ascii "/") =
      some ⟨ascii "text/plain", []⟩ := by decide +kernel
  obtain ⟨body, notFound⟩ :=
    responds_notFound (by decide) (fun _ _ => rfl : FullWrites blankEnv) requested found rfl
  exact ⟨requested, blank, not_answers_of_blank notFound blank⟩

end FrameHandler

end Http2Server
