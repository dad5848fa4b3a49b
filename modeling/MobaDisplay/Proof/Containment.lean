import MobaDisplay.Server.ResourceLoader

/-!
# Which files a request can reach

The comparison with the root is made on a canonical path, and opening a canonical
path opens what is there: on this side nothing escapes. But the path that is opened
can be another one. For a directory, `index.html` is appended after the comparison,
and if that is a link, opening it follows the link, wherever it leads.
-/

namespace MobaDisplay

open Cxx FileTree

/-- An answer with status 200 streams a file whose place is below the canonical root. -/
def Contained (fs : FileSystem) (loader : ResourceLoader) (requestPath : Bytes) : Prop :=
  (loader.handle fs requestPath).status = .successOk →
    ∃ webRootPath place, fs.canonical (fs.absolute loader.rootPath) = .ok webRootPath
      ∧ (loader.handle fs requestPath).place = some place ∧ webRootPath <+: place

/--
The request leads to a directory below the root whose `index.html` is a symbolic
link to something outside it that can be opened.
-/
def IndexEscapes (fs : FileSystem) (rootPath requestPath : Bytes) : Prop :=
  ∃ webRootPath path target place,
    fs.canonical (fs.absolute rootPath) = .ok webRootPath
      ∧ fs.canonical (below webRootPath requestPath) = .ok path ∧ webRootPath <+: path
      ∧ lookup fs.top (path ++ [indexHtml]) = some (.link target)
      ∧ fs.find ((path ++ [indexHtml]).map .name) = .ok place
      ∧ (fs.openAt place).isSome = true ∧ ¬ webRootPath <+: place

theorem openPath_eq_some {fs : FileSystem} {path place : List Name} {ifs : Ifstream}
    (h : fs.openPath path = some (place, ifs)) :
    fs.find (path.map .name) = .ok place ∧ fs.openAt place = some ifs := by
  unfold FileSystem.openPath at h
  split at h
  · rename_i q hq
    obtain ⟨f, hf, heq⟩ := Option.map_eq_some_iff.mp h
    obtain ⟨rfl, rfl⟩ := Prod.mk.inj heq
    exact ⟨hq, hf⟩
  · exact absurd h (by simp)

/-- **Where the index of a directory leads**, unless it is a link: to itself. -/
theorem find_index {fs : FileSystem} {path place : List Name}
    {entries : List (Name × Node Name File)} (hdir : lookup fs.top path = some (.dir entries))
    (hfind : fs.find ((path ++ [indexHtml]).map .name) = .ok place) :
    (∃ target, lookup fs.top (path ++ [indexHtml]) = some (.link target))
      ∨ place = path ++ [indexHtml] := by
  rw [FileSystem.find, resolve_child hdir] at hfind
  split at hfind
  · exact absurd hfind (by simp)
  · rename_i target hentry
    exact Or.inl ⟨target, hentry⟩
  · exact Or.inr (Except.ok.inj hfind).symm

/-- What was opened is below the root, or behind the link an index is. -/
theorem contained_or_escapes {fs : FileSystem} {rootPath requestPath : Bytes} {place : List Name}
    {ifs : Ifstream} (h : openTarget fs rootPath requestPath = .ok (place, ifs)) :
    (∃ webRootPath, fs.canonical (fs.absolute rootPath) = .ok webRootPath
        ∧ webRootPath <+: place)
      ∨ IndexEscapes fs rootPath requestPath := by
  obtain ⟨webRootPath, path, hroot, hpath, hwithin, hopen⟩ := openTarget_eq_ok_iff.mp h
  have hreal := FileSystem.canonical_isReal hpath
  by_cases hdir : fs.isDirectory path = true
  · rw [if_pos hdir] at hopen
    obtain ⟨hfind, hat⟩ := openPath_eq_some hopen
    obtain ⟨entries, hentries⟩ := (FileSystem.isDirectory_real hreal).mp hdir
    rcases find_index hentries hfind with ⟨target, hlink⟩ | rfl
    · by_cases hplace : webRootPath <+: place
      · exact Or.inl ⟨webRootPath, hroot, hplace⟩
      · exact Or.inr ⟨webRootPath, path, target, place, hroot, hpath, hwithin, hlink, hfind,
          by rw [hat]; rfl, hplace⟩
    · exact Or.inl ⟨webRootPath, hroot, hwithin.trans (List.prefix_append path [indexHtml])⟩
  · -- a canonical path that is no directory is opened as it was compared
    rw [if_neg hdir, FileSystem.openPath_real hreal] at hopen
    obtain ⟨f, _, heq⟩ := Option.map_eq_some_iff.mp hopen
    obtain ⟨rfl, rfl⟩ := Prod.mk.inj heq
    exact Or.inl ⟨webRootPath, hroot, hwithin⟩

/-- An index that leads outside is opened and streamed. -/
theorem openTarget_of_escapes {fs : FileSystem} {rootPath requestPath : Bytes}
    (h : IndexEscapes fs rootPath requestPath) :
    ∃ webRootPath place ifs, fs.canonical (fs.absolute rootPath) = .ok webRootPath
      ∧ openTarget fs rootPath requestPath = .ok (place, ifs) ∧ ¬ webRootPath <+: place := by
  obtain ⟨webRootPath, path, target, place, hroot, hpath, hwithin, hlink, hfind, hsome, hplace⟩ := h
  obtain ⟨entries, hentries, _⟩ := lookup_parent hlink
  obtain ⟨ifs, hat⟩ := Option.isSome_iff_exists.mp hsome
  have hdir : fs.isDirectory path = true :=
    (FileSystem.isDirectory_real (FileSystem.canonical_isReal hpath)).mpr ⟨entries, hentries⟩
  refine ⟨webRootPath, place, ifs, hroot, openTarget_eq_ok_iff.mpr ?_, hplace⟩
  refine ⟨webRootPath, path, hroot, hpath, hwithin, ?_⟩
  rw [if_pos hdir, FileSystem.openPath, hfind]
  dsimp only
  rw [hat]
  rfl

/-- What is streamed is what stands at the place of the answer, and that is no link. -/
theorem streamed_of_place {fs : FileSystem} {loader : ResourceLoader} {requestPath : Bytes}
    {place : List Name} (h : (loader.handle fs requestPath).place = some place) :
    IsReal fs.top place ∧ ∃ ifs, fs.openAt place = some ifs
      ∧ (loader.handle fs requestPath).response = (loader.streamFile {} ifs).2.1 := by
  cases hopen : openTarget fs loader.rootPath requestPath with
  | error e =>
      rw [(ResourceLoader.handle_error hopen).2] at h
      exact absurd h (by simp)
  | ok opened =>
      obtain ⟨place', ifs⟩ := opened
      obtain ⟨_, hplace, hresponse⟩ := ResourceLoader.handle_ok hopen
      obtain rfl := Option.some.inj (hplace.symm.trans h)
      obtain ⟨_, path, _, _, _, hpath⟩ := openTarget_eq_ok_iff.mp hopen
      obtain ⟨hfind, hat⟩ := openPath_eq_some hpath
      exact ⟨FileSystem.find_isReal hfind, ifs, hat, hresponse⟩

/--
**When the file server keeps to its root.**

For every file system, root and request, exactly if the request does not lead to a
directory below the root whose `index.html` is a link to something outside that can
be opened. What is streamed is what stands at the place, which is no link.
-/
theorem contained_iff (fs : FileSystem) (loader : ResourceLoader) (requestPath : Bytes) :
    (Contained fs loader requestPath ↔ ¬ IndexEscapes fs loader.rootPath requestPath)
      ∧ ∀ place, (loader.handle fs requestPath).place = some place →
          IsReal fs.top place ∧ ∃ ifs, fs.openAt place = some ifs
            ∧ (loader.handle fs requestPath).response = (loader.streamFile {} ifs).2.1 := by
  refine ⟨⟨?_, ?_⟩, fun place hplace => streamed_of_place hplace⟩
  · intro hcontained hescapes
    obtain ⟨webRootPath, place, ifs, hroot, hopen, hout⟩ := openTarget_of_escapes hescapes
    obtain ⟨hstatus, hplace, _⟩ := ResourceLoader.handle_ok hopen
    obtain ⟨webRootPath', place', hroot', hplace', hwithin⟩ := hcontained hstatus
    obtain rfl := Except.ok.inj (hroot.symm.trans hroot')
    obtain rfl := Option.some.inj (hplace.symm.trans hplace')
    exact hout hwithin
  · intro hnot hstatus
    cases hopen : openTarget fs loader.rootPath requestPath with
    | error e =>
        rw [(ResourceLoader.handle_error hopen).1] at hstatus
        exact absurd hstatus (by decide)
    | ok opened =>
        obtain ⟨place, ifs⟩ := opened
        have hplace := (ResourceLoader.handle_ok hopen).2.1
        rcases contained_or_escapes hopen with ⟨webRootPath, hroot, hwithin⟩ | hescapes
        · exact ⟨webRootPath, place, hroot, hplace, hwithin⟩
        · exact absurd hescapes hnot

/-- `/srv/www` with an index that is a link to `/etc/passwd`. -/
def linkedIndex : FileSystem where
  top := .dir
    [(utf8 "etc", .dir [(utf8 "passwd", .file ⟨utf8 "root", true⟩)]),
      (utf8 "srv", .dir [(utf8 "www", .dir
        [(indexHtml, .link ⟨true, [.name (utf8 "etc"), .name (utf8 "passwd")]⟩)])])]
  top_isDir := rfl
  cwd := []
  maxLinks := 40
  directorySize := none
  what := fun _ _ => []

/-- A request for the root streams the file outside it. -/
theorem index_streams_passwd :
    ¬ Contained linkedIndex (.make (utf8 "/srv/www")) (utf8 "/")
      ∧ (ResourceLoader.handle (.make (utf8 "/srv/www")) linkedIndex (utf8 "/")).status = .successOk
      ∧ (ResourceLoader.handle (.make (utf8 "/srv/www")) linkedIndex (utf8 "/")).response.written
          = fileHead 4 ++ utf8 "root" := by
  have hopen : openTarget linkedIndex (utf8 "/srv/www") (utf8 "/")
      = .ok ([utf8 "etc", utf8 "passwd"], .openAte (utf8 "root")) := rfl
  obtain ⟨hstatus, hplace, hresponse⟩ :=
    @ResourceLoader.handle_ok (.make (utf8 "/srv/www")) _ _ _ _ hopen
  refine ⟨?_, hstatus, ?_⟩
  · intro h
    obtain ⟨webRootPath, place, hroot, hplace', hwithin⟩ := h hstatus
    have hwww : linkedIndex.canonical (linkedIndex.absolute (utf8 "/srv/www"))
        = .ok [utf8 "srv", utf8 "www"] := rfl
    obtain rfl := Except.ok.inj (hwww.symm.trans hroot)
    obtain rfl := Option.some.inj (hplace.symm.trans hplace')
    exact absurd hwithin (by decide +kernel)
  · rw [hresponse, ResourceLoader.streamFile_eq]
    rfl

end MobaDisplay
