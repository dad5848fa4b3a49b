import MobaDisplay.Server.ResourceLoader

/-!
# What a refused request shows of the file system

A request is refused for one of three reasons: its path does not resolve, it leads
outside the root, or what it leads to cannot be opened. The text of the exception
goes into the answer, so two answers are equal exactly if the texts are. Of what is
outside the root an answer tells the reason, hence whether a path out there
resolves, and nothing more.
-/

namespace MobaDisplay

open Cxx FileTree

/-- Why a request is refused, once the root is resolved. -/
inductive Refusal where
  | unresolved (e : FileTree.Error)
  | outside
  | unreadable
  deriving DecidableEq

/-- The exception a request is refused with. -/
def Refusal.exception (fs : FileSystem) (webRootPath : List Name) (requestPath : Bytes) :
    Refusal → Cxx.Exception
  | unresolved e => .filesystemError (fs.what e (below webRootPath requestPath))
  | outside => .invalidArgument (utf8 "path must be within root path")
  | unreadable => .invalidArgument (utf8 "could not read file")

/-- The reason a request has to be refused for, if it is: where its path leads decides. -/
def reason (fs : FileSystem) (webRootPath : List Name) (requestPath : Bytes) : Refusal :=
  match fs.find (below webRootPath requestPath) with
  | .error e => .unresolved e
  | .ok path => if webRootPath <+: path then .unreadable else .outside

variable {fs fs' : FileSystem} {loader : ResourceLoader} {webRootPath : List Name}
  {requestPath : Bytes}

/-- **The `try` block fails for that reason, or not at all.** -/
theorem openTarget_cases {rootPath : Bytes}
    (hroot : fs.canonical (fs.absolute rootPath) = .ok webRootPath) (requestPath : Bytes) :
    openTarget fs rootPath requestPath
        = .error ((reason fs webRootPath requestPath).exception fs webRootPath requestPath)
      ∨ ∃ opened, openTarget fs rootPath requestPath = .ok opened := by
  rw [openTarget_root hroot, FileSystem.canonical]
  unfold reason
  cases fs.find (below webRootPath requestPath) with
  | error e => exact Or.inl rfl
  | ok path =>
      dsimp only
      by_cases hwithin : webRootPath <+: path
      · rw [if_pos hwithin, if_pos hwithin]
        cases fs.openPath (if fs.isDirectory path then path ++ [indexHtml] else path) with
        | none => exact Or.inl rfl
        | some opened => exact Or.inr ⟨opened, rfl⟩
      · rw [if_neg hwithin, if_neg hwithin]
        exact Or.inl rfl

/-- The response to a request that failed. -/
def refusedWith (requestPath : Bytes) (e : Cxx.Exception) : Response :=
  ({} : Response).writeAnswer .clientErrorBadRequest (ResourceLoader.errorText requestPath e) []

/-- **The answer to a refused request is the text of the reason.** -/
theorem handle_refused (hroot : fs.canonical (fs.absolute loader.rootPath) = .ok webRootPath)
    (h : (loader.handle fs requestPath).status = .clientErrorBadRequest) :
    (loader.handle fs requestPath).response
      = refusedWith requestPath
          ((reason fs webRootPath requestPath).exception fs webRootPath requestPath) := by
  rcases openTarget_cases hroot requestPath with hopen | ⟨⟨place, ifs⟩, hopen⟩
  · unfold ResourceLoader.handle
    rw [hopen]
    rfl
  · rw [(ResourceLoader.handle_ok hopen).1] at h
    exact absurd h (by decide)

/-- Two failures get the same response exactly if the texts of the exceptions are the same. -/
theorem refusedWith_eq_iff {e e' : Cxx.Exception} :
    refusedWith requestPath e = refusedWith requestPath e' ↔ e.what = e'.what := by
  refine ⟨?_, ?_⟩
  · intro h
    have hwritten := congrArg Response.written h
    simp only [refusedWith, Response.writeAnswer, Response.write_written, List.nil_append]
      at hwritten
    exact List.append_cancel_left (answerText_inj hwritten)
  · intro h
    unfold refusedWith ResourceLoader.errorText
    rw [h]

/-! ## Requests that leave the root -/

/-- What is left of a path without a look at the file system. -/
def lexical (path : List (Comp Name)) : List Name :=
  path.foldl (fun place c =>
    match c with
    | .here => place
    | .up => place.dropLast
    | .name n => place ++ [n]) []

/-- The request resolves to a place outside the root. -/
def LeadsOutside (fs : FileSystem) (webRootPath : List Name) (requestPath : Bytes) : Prop :=
  ∃ place, fs.find (below webRootPath requestPath) = .ok place ∧ ¬ webRootPath <+: place

/-- The request leaves the root, by its text or through what is there. -/
def LeavesRoot (fs : FileSystem) (webRootPath : List Name) (requestPath : Bytes) : Prop :=
  ¬ webRootPath <+: lexical (below webRootPath requestPath)
    ∨ LeadsOutside fs webRootPath requestPath

/-- The resolution looks at nothing but the root, what is below it and what is above it. -/
def LooksInside (fs : FileSystem) (webRootPath : List Name) (requestPath : Bytes) : Prop :=
  ResolveIn (fun q => q <+: webRootPath ∨ webRootPath <+: q) fs.top fs.maxLinks []
    (below webRootPath requestPath)

theorem reason_outside (h : LeadsOutside fs webRootPath requestPath) :
    reason fs webRootPath requestPath = .outside := by
  obtain ⟨place, hfind, hout⟩ := h
  unfold reason
  rw [hfind]
  exact if_neg hout

/-- Where nothing else is looked at, agreement at the root decides where a path leads. -/
theorem find_of_looksInside {node : Node Name File} (hplatform : fs.SamePlatform fs')
    (hnode : lookup fs.top webRootPath = some node)
    (hnode' : lookup fs'.top webRootPath = some node)
    (hlooks : LooksInside fs webRootPath requestPath) :
    fs'.find (below webRootPath requestPath) = fs.find (below webRootPath requestPath) := by
  unfold FileSystem.find
  rw [hplatform.maxLinks]
  exact resolve_congr (kindAt_comparable hnode hnode') fs.maxLinks [] _ hlooks

/-- On one machine the same reason has the same text. -/
theorem exception_congr (hplatform : fs.SamePlatform fs') (r : Refusal) :
    r.exception fs' webRootPath requestPath = r.exception fs webRootPath requestPath := by
  unfold Refusal.exception
  rw [hplatform.what]

/-- An empty root `/srv/www`, and what stands beside it in `/srv`. -/
def emptySite (beside : List (Name × Node Name File)) : FileSystem where
  top := .dir [(utf8 "srv", .dir ((utf8 "www", .dir []) :: beside))]
  top_isDir := rfl
  cwd := []
  maxLinks := 40
  directorySize := none
  what := fun e _ =>
    match e with
    | .notFound => utf8 "boost::filesystem::canonical: No such file or directory"
    | .notDirectory => utf8 "boost::filesystem::canonical: Not a directory"
    | .tooManyLinks => utf8 "boost::filesystem::canonical: Too many levels of symbolic links"

def noSecret : FileSystem := emptySite []

def secretFile : FileSystem := emptySite [(utf8 "secret", .file ⟨utf8 "key", true⟩)]

def secretDir : FileSystem := emptySite [(utf8 "secret", .dir [])]

theorem emptySite_samePlatform (beside beside' : List (Name × Node Name File)) :
    (emptySite beside).SamePlatform (emptySite beside') := ⟨rfl, rfl, rfl⟩

theorem emptySite_root (beside : List (Name × Node Name File)) :
    (emptySite beside).canonical
        ((emptySite beside).absolute (ResourceLoader.make (utf8 "/srv/www")).rootPath)
      = .ok [utf8 "srv", utf8 "www"] := rfl

/-- The resolution of `/missing/../../secret` ends inside the root. -/
theorem emptySite_looksInside (beside : List (Name × Node Name File)) :
    LooksInside (emptySite beside) [utf8 "srv", utf8 "www"] (utf8 "/missing/../../secret") := by
  have habove : ∀ q, q <+: [utf8 "srv", utf8 "www"] →
      q <+: [utf8 "srv", utf8 "www"] ∨ [utf8 "srv", utf8 "www"] <+: q := fun _ h => Or.inl h
  have htop := habove [] List.nil_prefix
  have hsrv := habove [utf8 "srv"] (by decide +kernel)
  have hroot := habove [utf8 "srv", utf8 "www"] List.prefix_rfl
  have hmissing : [utf8 "srv", utf8 "www", utf8 "missing"] <+: [utf8 "srv", utf8 "www"]
      ∨ [utf8 "srv", utf8 "www"] <+: [utf8 "srv", utf8 "www", utf8 "missing"] :=
    Or.inr (List.prefix_append [utf8 "srv", utf8 "www"] [utf8 "missing"])
  exact ⟨htop, hsrv, hsrv, hroot, hroot, hmissing, trivial⟩

end MobaDisplay
