import MobaDisplay.Server.FileSystem
import MobaDisplay.Server.ReadAndSend

/-!
# `ResourceLoader::operator()`

The request path is resolved below the root, and the result is compared with the
root, component by component. A directory stands for its `index.html`, which is
appended to the path after the comparison. What can be opened is streamed, and
every exception becomes an answer of its own.
-/

namespace MobaDisplay

open Cxx FileTree

/-- The elements of an absolute path: the root directory, and the names. -/
def elements (path : List Name) : List Bytes := [slash] :: path

/-- `std::equal(first1, last1, first2)`; `none` where it would read past the end of the second. -/
def equal : List Bytes → List Bytes → Option Bool
  | [], _ => some true
  | _ :: _, [] => none
  | a :: as, b :: bs => if a = b then equal as bs else some false

/-- The negation of the condition under which `operator()` throws. -/
def isWithin (webRootPath path : List Name) : Bool :=
  !(decide ((elements webRootPath).length > (elements path).length)
    || equal (elements webRootPath) (elements path) != some true)

/-- `"index.html"` -/
def indexHtml : Name := utf8 "index.html"

/-- `webRootPath / request->path`, which appends the path, also one that begins with a slash. -/
def below (webRootPath : List Name) (requestPath : Bytes) : List (Comp Name) :=
  webRootPath.map .name ++ components requestPath

/-- The `try` block, up to the open stream and where it is. -/
def openTarget (fs : FileSystem) (rootPath requestPath : Bytes) :
    Except Cxx.Exception (List Name × Ifstream) := do
  let webRootPath ← fs.canonical (fs.absolute rootPath)
  let path ← fs.canonical (below webRootPath requestPath)
  if !isWithin webRootPath path then
    throw (.invalidArgument (utf8 "path must be within root path"))
  let path := if fs.isDirectory path then path ++ [indexHtml] else path
  match fs.openPath path with
  | none => throw (.invalidArgument (utf8 "could not read file"))
  | some opened => return opened

/-- One call of `operator()`. -/
structure Answer where
  status : StatusCode
  /-- Where the streamed file is. -/
  place : Option (List Name)
  loader : ResourceLoader
  response : Response
  ifs : Option Ifstream

namespace ResourceLoader

/-- The body of the answer to a request that failed. -/
def errorText (requestPath : Bytes) (e : Cxx.Exception) : Bytes :=
  utf8 "Could not open path " ++ requestPath ++ utf8 ": " ++ e.what

/-- `operator()(response, request)` -/
def handle (loader : ResourceLoader) (fs : FileSystem) (requestPath : Bytes) : Answer :=
  match openTarget fs loader.rootPath requestPath with
  | .ok (place, ifs) =>
      let (loader, response, ifs) := loader.streamFile {} ifs
      ⟨.successOk, some place, loader, response, some ifs⟩
  | .error e =>
      let response := ({} : Response).writeAnswer .clientErrorBadRequest (errorText requestPath e) []
      ⟨.clientErrorBadRequest, none, loader, response, none⟩

theorem handle_ok {loader : ResourceLoader} {fs : FileSystem} {requestPath : Bytes}
    {place : List Name} {ifs : Ifstream}
    (h : openTarget fs loader.rootPath requestPath = .ok (place, ifs)) :
    (loader.handle fs requestPath).status = .successOk
      ∧ (loader.handle fs requestPath).place = some place
      ∧ (loader.handle fs requestPath).response = (loader.streamFile {} ifs).2.1 := by
  unfold handle
  rw [h]
  exact ⟨rfl, rfl, rfl⟩

theorem handle_error {loader : ResourceLoader} {fs : FileSystem} {requestPath : Bytes}
    {e : Cxx.Exception} (h : openTarget fs loader.rootPath requestPath = .error e) :
    (loader.handle fs requestPath).status = .clientErrorBadRequest
      ∧ (loader.handle fs requestPath).place = none := by
  unfold handle
  rw [h]
  exact ⟨rfl, rfl⟩

end ResourceLoader

/-! ## The comparison -/

/-- On a second range that is no shorter, `std::equal` stays inside it. -/
theorem equal_eq {as bs : List Bytes} (h : as.length ≤ bs.length) :
    equal as bs = some (decide (as <+: bs)) := by
  induction as generalizing bs with
  | nil => simp [equal]
  | cons a as ih =>
      cases bs with
      | nil => exact absurd h (by simp)
      | cons b bs =>
          unfold equal
          by_cases hab : a = b
          · rw [if_pos hab, ih (by simpa using h)]
            simp [List.cons_prefix_cons, hab]
          · rw [if_neg hab]
            simp [List.cons_prefix_cons, hab]

/-- **The comparison asks for exactly the leading components.** -/
theorem isWithin_iff {webRootPath path : List Name} :
    isWithin webRootPath path = true ↔ webRootPath <+: path := by
  unfold isWithin
  by_cases hlen : (elements webRootPath).length > (elements path).length
  · have hnot : ¬ webRootPath <+: path := by
      intro hpre
      have hle := hpre.length_le
      simp only [elements, List.length_cons] at hlen
      omega
    simp [hlen, hnot]
  · have hpre : elements webRootPath <+: elements path ↔ webRootPath <+: path := by
      simp [elements, List.cons_prefix_cons]
    rw [equal_eq (by omega), decide_eq_false hlen, ← hpre]
    by_cases h : elements webRootPath <+: elements path <;> simp [h]

/-! ## The cases of the `try` block -/

theorem openTarget_root_error {fs : FileSystem} {rootPath : Bytes} {e : Cxx.Exception}
    (h : fs.canonical (fs.absolute rootPath) = .error e) (requestPath : Bytes) :
    openTarget fs rootPath requestPath = .error e := by
  unfold openTarget
  rw [h]
  rfl

/-- **Once the root is resolved**: three ways to fail, and one to go through. -/
theorem openTarget_root {fs : FileSystem} {rootPath : Bytes} {webRootPath : List Name}
    (h : fs.canonical (fs.absolute rootPath) = .ok webRootPath) (requestPath : Bytes) :
    openTarget fs rootPath requestPath
      = match fs.canonical (below webRootPath requestPath) with
        | .error e => .error e
        | .ok path =>
            if webRootPath <+: path then
              match fs.openPath (if fs.isDirectory path then path ++ [indexHtml] else path) with
              | none => .error (.invalidArgument (utf8 "could not read file"))
              | some opened => .ok opened
            else
              .error (.invalidArgument (utf8 "path must be within root path")) := by
  unfold openTarget
  rw [h]
  simp only [bind, Except.bind]
  cases fs.canonical (below webRootPath requestPath) with
  | error e => rfl
  | ok path =>
      dsimp only
      by_cases hwithin : webRootPath <+: path
      · rw [if_pos hwithin, isWithin_iff.mpr hwithin]
        rfl
      · have hnot : isWithin webRootPath path = false := by
          rw [Bool.eq_false_iff]
          intro htrue
          exact hwithin (isWithin_iff.mp htrue)
        rw [if_neg hwithin, hnot]
        rfl

/-- **When a request is answered with a file**, and where the file is. -/
theorem openTarget_eq_ok_iff {fs : FileSystem} {rootPath requestPath : Bytes} {place : List Name}
    {ifs : Ifstream} :
    openTarget fs rootPath requestPath = .ok (place, ifs) ↔
      ∃ webRootPath path, fs.canonical (fs.absolute rootPath) = .ok webRootPath
        ∧ fs.canonical (below webRootPath requestPath) = .ok path ∧ webRootPath <+: path
        ∧ fs.openPath (if fs.isDirectory path then path ++ [indexHtml] else path)
            = some (place, ifs) := by
  cases hroot : fs.canonical (fs.absolute rootPath) with
  | error e =>
      rw [openTarget_root_error hroot]
      refine ⟨?_, ?_⟩
      · intro h
        exact absurd h (by simp)
      · rintro ⟨w, _, hw, _⟩
        exact absurd hw (by simp)
  | ok webRootPath =>
      rw [openTarget_root hroot]
      refine ⟨?_, ?_⟩
      · intro h
        split at h
        · exact absurd h (by simp)
        · rename_i path hpath
          split at h
          · rename_i hwithin
            split at h
            · exact absurd h (by simp)
            · rename_i opened hopened
              obtain rfl := Except.ok.inj h
              exact ⟨webRootPath, path, rfl, hpath, hwithin, hopened⟩
          · exact absurd h (by simp)
      · rintro ⟨w, path, hw, hpath, hwithin, hopen⟩
        obtain rfl := Except.ok.inj hw
        rw [hpath]
        dsimp only
        rw [if_pos hwithin, hopen]

end MobaDisplay
