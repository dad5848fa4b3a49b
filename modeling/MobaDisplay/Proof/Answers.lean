import MobaDisplay.Server.Operator

/-!
# One answer per request, and which

All four ways to fail are in one `try` block with the streaming, and the `catch`
clause writes an answer of its own. But they all lie in front of the statement that
writes the head of a file, and nothing after it throws if the stream operations do
not. So a call writes one head: 200 if the request leads to a file it can open below
the root, and 400 otherwise, with a body that no file has any part in.
-/

namespace MobaDisplay

open Cxx Script FileTree

/-- Both paths resolve, the second one below the first, and what it stands for can be opened. -/
def Served (fs : FileSystem) (rootPath requestPath : Bytes) : Prop :=
  ∃ webRootPath path, fs.canonical (fs.absolute rootPath) = .ok webRootPath
    ∧ fs.canonical (below webRootPath requestPath) = .ok path ∧ webRootPath <+: path
    ∧ (fs.openPath (if fs.isDirectory path then path ++ [indexHtml] else path)).isSome = true

theorem served_iff {fs : FileSystem} {rootPath requestPath : Bytes} :
    Served fs rootPath requestPath ↔ ∃ opened, openTarget fs rootPath requestPath = .ok opened := by
  refine ⟨?_, ?_⟩
  · rintro ⟨webRootPath, path, hroot, hpath, hwithin, hopen⟩
    obtain ⟨⟨place, ifs⟩, hopened⟩ := Option.isSome_iff_exists.mp hopen
    exact ⟨(place, ifs),
      openTarget_eq_ok_iff.mpr ⟨webRootPath, path, hroot, hpath, hwithin, hopened⟩⟩
  · rintro ⟨⟨place, ifs⟩, h⟩
    obtain ⟨webRootPath, path, hroot, hpath, hwithin, hopened⟩ := openTarget_eq_ok_iff.mp h
    refine ⟨webRootPath, path, hroot, hpath, hwithin, ?_⟩
    rw [hopened]
    rfl

theorem openTarget_of_not_served {fs : FileSystem} {rootPath requestPath : Bytes}
    (h : ¬ Served fs rootPath requestPath) :
    ∃ e, openTarget fs rootPath requestPath = .error e := by
  cases hopen : openTarget fs rootPath requestPath with
  | error e => exact ⟨e, rfl⟩
  | ok opened => exact absurd (served_iff.mpr ⟨opened, hopen⟩) h

/-- **What the files hold has no part in a failure.** -/
theorem openTarget_error_contents {fs fs' : FileSystem} {rootPath requestPath : Bytes}
    {e : Cxx.Exception} (h : fs.SameButContents fs')
    (herror : openTarget fs rootPath requestPath = .error e) :
    openTarget fs' rootPath requestPath = .error e := by
  have hcanonical : fs'.canonical (fs'.absolute rootPath)
      = fs.canonical (fs.absolute rootPath) := by
    rw [h.absolute, h.canonical]
  cases hroot : fs.canonical (fs.absolute rootPath) with
  | error e' =>
      rw [openTarget_root_error hroot] at herror
      rw [hroot] at hcanonical
      rw [openTarget_root_error hcanonical]
      exact herror
  | ok webRootPath =>
      rw [openTarget_root hroot] at herror
      rw [hroot] at hcanonical
      rw [openTarget_root hcanonical, h.canonical]
      cases hpath : fs.canonical (below webRootPath requestPath) with
      | error e' =>
          rw [hpath] at herror
          exact herror
      | ok path =>
          rw [hpath] at herror
          dsimp only at herror ⊢
          by_cases hwithin : webRootPath <+: path
          · rw [if_pos hwithin] at herror ⊢
            rw [h.isDirectory]
            have hopens := h.openPath (if fs.isDirectory path then path ++ [indexHtml] else path)
            cases hopen : fs.openPath
                (if fs.isDirectory path then path ++ [indexHtml] else path) with
            | none =>
                rw [hopen] at herror hopens
                have hnone : fs'.openPath
                    (if fs.isDirectory path then path ++ [indexHtml] else path) = none :=
                  Option.not_isSome_iff_eq_none.mp (by rw [hopens]; simp)
                rw [hnone]
                exact herror
            | some opened =>
                rw [hopen] at herror
                exact absurd herror (by simp)
          · rw [if_neg hwithin] at herror ⊢
            exact herror

/-! ## The comparison of the two paths -/

/-- What the comparison makes of any two paths. -/
structure ComparesComponents : Prop where
  /-- The root itself and what is below it passes. -/
  below : ∀ webRootPath rest, isWithin webRootPath (webRootPath ++ rest) = true
  /-- A sibling does not, whatever its name has in common with the root's. -/
  sibling : ∀ dir root name rest, name ≠ root →
    isWithin (dir ++ [root]) (dir ++ name :: rest) = false
  /-- Where `std::equal` is called, it reads nothing past the end of the second path. -/
  inside : ∀ webRootPath path, ¬ (elements webRootPath).length > (elements path).length →
    equal (elements webRootPath) (elements path) ≠ none

theorem comparesComponents : ComparesComponents where
  below := by
    intro webRootPath rest
    exact isWithin_iff.mpr (List.prefix_append webRootPath rest)
  sibling := by
    intro dir root name rest hname
    rw [Bool.eq_false_iff]
    intro h
    have hleading := isWithin_iff.mp h
    rw [List.prefix_append_right_inj, List.cons_prefix_cons] at hleading
    exact hname hleading.1.symm
  inside := by
    intro webRootPath path hlen h
    rw [equal_eq (by omega)] at h
    exact absurd h (by simp)

/-! ## The answer -/

variable {throws : StreamThrows} {fs : FileSystem} {loader : ResourceLoader} {requestPath : Bytes}

/-- How a request is answered that is not served: one head, and a text about the failure. -/
structure Refused (throws : StreamThrows) (fs : FileSystem) (loader : ResourceLoader)
    (requestPath : Bytes) (call : Call) : Prop where
  heads : call.heads = [.clientErrorBadRequest]
  /-- The whole answer is the text of one of the exceptions. -/
  written : ∃ e, openTarget fs loader.rootPath requestPath = .error e
    ∧ call.response.written
        = answerText .clientErrorBadRequest (ResourceLoader.errorText requestPath e) []
  /-- With other bytes in the files it is the same. -/
  contents : ∀ fs', fs.SameButContents fs' →
    (ResourceLoader.operator throws fs' requestPath).run (Call.start loader) = .ok () call

theorem status_successOk_iff :
    (loader.handle fs requestPath).status = .successOk ↔ Served fs loader.rootPath requestPath := by
  rw [served_iff]
  unfold ResourceLoader.handle
  cases openTarget fs loader.rootPath requestPath with
  | error e => simp
  | ok opened => simp

/-- The answer to a request that is not served is the same with other bytes in the files. -/
theorem handle_contents {fs' : FileSystem} (hnot : ¬ Served fs loader.rootPath requestPath)
    (h : fs.SameButContents fs') :
    loader.handle fs' requestPath = loader.handle fs requestPath := by
  obtain ⟨e, he⟩ := openTarget_of_not_served hnot
  unfold ResourceLoader.handle
  rw [he, openTarget_error_contents h he]

theorem refused_of_not_served (hnever : throws.Never)
    (hnot : ¬ Served fs loader.rootPath requestPath) :
    Refused throws fs loader requestPath ⟨(loader.handle fs requestPath).loader,
      (loader.handle fs requestPath).response, [(loader.handle fs requestPath).status]⟩ := by
  obtain ⟨e, he⟩ := openTarget_of_not_served hnot
  refine ⟨?_, ⟨e, he, ?_⟩, ?_⟩
  · rw [(ResourceLoader.handle_error he).1]
  · unfold ResourceLoader.handle
    rw [he]
    rfl
  · intro fs' hsame
    rw [ResourceLoader.operator_eq_handle hnever, handle_contents hnot hsame]

/-- `/srv/www` beside `/srv/www2`, each with an index. -/
def siblingSites : FileSystem where
  top := .dir [(utf8 "srv", .dir
    [(utf8 "www", .dir [(indexHtml, .file ⟨utf8 "one", true⟩)]),
      (utf8 "www2", .dir [(indexHtml, .file ⟨utf8 "two", true⟩)])])]
  top_isDir := rfl
  cwd := []
  maxLinks := 40
  directorySize := none
  what := fun _ _ => []

end MobaDisplay
