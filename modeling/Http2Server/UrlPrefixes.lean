import Http2Server.Bindings

/-!
# What the content of a URL depends on

Only what is bound to the beginnings of a URL decides what is served for it.

- `getContent_local`: the entries of the maps that are looked at.
- `content_of_last`: the calls of `bindDirectory` and `bindFile` that have a say.
-/

namespace Http2Server.WebBinder

section
variable {b b' : WebBinder} {url : Bytes}

theorem mem_local (dirs : ∀ u, u <+: url → b.dirBindings[u]? = b'.dirBindings[u]?) {u : Bytes}
    (begins : u <+: url) : u ∈ b.dirBindings ↔ u ∈ b'.dirBindings := by
  rw [Std.TreeMap.mem_iff_isSome_getElem?, Std.TreeMap.mem_iff_isSome_getElem?, dirs u begins]

/-- The first binding that is passed has to begin the URL, and so have all before it. -/
theorem prefixBinding_local (dirs : ∀ u, u <+: url → b.dirBindings[u]? = b'.dirBindings[u]?) :
    b.prefixBinding url = b'.prefixBinding url := by
  apply Option.ext
  rintro ⟨dirUrl, dirPath⟩
  rw [prefixBinding_eq_some_iff, prefixBinding_eq_some_iff]
  constructor
  · rintro ⟨bound, begins, least⟩
    refine ⟨(dirs dirUrl begins).symm.trans bound, begins, ?_⟩
    intro other held shorter
    exact least other ((mem_local dirs shorter).mpr held) shorter
  · rintro ⟨bound, begins, least⟩
    refine ⟨(dirs dirUrl begins).trans bound, begins, ?_⟩
    intro other held shorter
    exact least other ((mem_local dirs shorter).mp held) shorter

theorem getContent_local (dirs : ∀ u, u <+: url → b.dirBindings[u]? = b'.dirBindings[u]?)
    (file : b.fileBindings[url]? = b'.fileBindings[url]?) (fs : FileSystem) :
    b.getContent fs url = b'.getContent fs url := by
  rw [getContent, getContent, answer, answer, dirs url (List.prefix_refl url), file,
    prefixBinding_local dirs]

end

/-- What a URL is bound to says what the maps have for it. -/
theorem Agrees.unique {b b' : WebBinder} {url : Bytes} {bound : Option Bound}
    (h : Agrees b url bound) (h' : Agrees b' url bound) :
    b.dirBindings[url]? = b'.dirBindings[url]? ∧ b.fileBindings[url]? = b'.fileBindings[url]? := by
  unfold Agrees at h h'
  split at h
  · exact ⟨h.1.trans h'.1.symm, h.2.trans h'.2.symm⟩
  · exact ⟨h.1.trans h'.1.symm, h.2.trans h'.2.symm⟩
  · exact ⟨h.1.trans h'.1.symm, h.2.trans h'.2.symm⟩

/-- **Locality.** Two histories of calls have the same served for a URL if every beginning of it
is bound alike by the last call for it that succeeded. Calls for other URLs, calls that failed or
were overridden, and the order of the rest are without effect. -/
theorem content_of_last {history history' : History} {url : Bytes}
    (same : ∀ u, u <+: url → lastBound history u = lastBound history' u) (fs : FileSystem) :
    (ofHistory history).getContent fs url = (ofHistory history').getContent fs url := by
  have maps {u : Bytes} (begins : u <+: url) := by
    have first := agrees_history history u
    rw [same u begins] at first
    exact first.unique (agrees_history history' u)
  apply getContent_local
  · exact fun u begins => (maps begins).1
  · exact (maps (List.prefix_refl url)).2

/-- One directory bound, or another besides. -/
theorem content_of_last_page :
    (ofHistory [(twoDirectories.fileSystem, .directory (ascii "/two") (ascii "/a")),
        (twoDirectories.fileSystem, .directory (ascii "/one") (ascii "/b"))]).getContent
      twoDirectories.fileSystem (ascii "/a/page.html") =
    (ofHistory [(twoDirectories.fileSystem, .directory (ascii "/two") (ascii "/a"))]).getContent
      twoDirectories.fileSystem (ascii "/a/page.html") := by
  apply content_of_last
  intro u begins
  have each : ∀ u ∈ (ascii "/a/page.html").inits,
      lastBound [(twoDirectories.fileSystem, .directory (ascii "/two") (ascii "/a")),
          (twoDirectories.fileSystem, .directory (ascii "/one") (ascii "/b"))] u =
        lastBound [(twoDirectories.fileSystem, .directory (ascii "/two") (ascii "/a"))] u := by
    decide +kernel
  exact each u ((List.mem_inits u _).mpr begins)

end Http2Server.WebBinder
