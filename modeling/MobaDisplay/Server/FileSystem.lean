import MobaDisplay.Lib.CxxStream
import MobaDisplay.Lib.FileTree

/-!
# The file system a request sees

One tree for the duration of a request, and what `boost::filesystem` and
`std::ifstream` do on it. A path is a text; its components are what stands between
the slashes, and a slash at the end asks for a directory. The result of `canonical`
is the list of the names behind the root directory. (Two slashes in front of a root
path name a host; such roots are not considered.)

Two things depend on the platform and stay open: the text of the exception of
`canonical`, and whether a directory can be opened as a file, and where it ends.
-/

namespace MobaDisplay

open Cxx FileTree

/-- The name of a file. -/
abbrev Name := Bytes

structure File where
  bytes : Bytes
  /-- The server may read it. -/
  readable : Bool

structure FileSystem where
  top : Node Name File
  top_isDir : top.isDir = true
  /-- `current_path()` -/
  cwd : List Name
  /-- How many links one lookup follows. -/
  maxLinks : Nat
  /-- The size of a directory, where one can be opened for reading. -/
  directorySize : Option Nat
  /-- `what()` of the `filesystem_error` that `canonical` throws. -/
  what : FileTree.Error → List (Comp Name) → Bytes

/-- `'/'` -/
def slash : UInt8 := 47

/-- What a piece between two slashes stands for. -/
def component : Bytes → Option (Comp Name)
  | [] => none
  | [46] => some .here
  | [46, 46] => some .up
  | name => some (.name name)

/-- The components of a path. -/
def components (text : Bytes) : List (Comp Name) :=
  (text.splitOn slash).filterMap component ++ if text.getLast? = some slash then [.here] else []

namespace FileSystem

/-- `absolute(p)` -/
def absolute (fs : FileSystem) (text : Bytes) : List (Comp Name) :=
  if text.head? = some slash then components text else fs.cwd.map .name ++ components text

/-- Where a path leads. -/
def find (fs : FileSystem) (path : List (Comp Name)) : Except FileTree.Error (List Name) :=
  resolve fs.top fs.maxLinks [] path

/-- `canonical(p)` -/
def canonical (fs : FileSystem) (path : List (Comp Name)) : Except Cxx.Exception (List Name) :=
  match fs.find path with
  | .ok p => .ok p
  | .error e => .error (.filesystemError (fs.what e path))

/-- `is_directory(p)` -/
def isDirectory (fs : FileSystem) (path : List Name) : Bool :=
  match fs.find (path.map .name) with
  | .ok p => (lookup fs.top p).any Node.isDir
  | .error _ => false

/-- What opening the file at a place gives. -/
def openAt (fs : FileSystem) (place : List Name) : Option Ifstream :=
  match lookup fs.top place with
  | some (.file f) => if f.readable then some (.openAte f.bytes) else none
  | some (.dir _) => fs.directorySize.map (fun size => ⟨[], size, false⟩)
  | _ => none

/-- `ifs->open(path, in | binary | ate)`: where the path leads, and the stream there. -/
def openPath (fs : FileSystem) (path : List Name) : Option (List Name × Ifstream) :=
  match fs.find (path.map .name) with
  | .ok place => (fs.openAt place).map (fun ifs => (place, ifs))
  | .error _ => none

theorem top_not_isLink (fs : FileSystem) : fs.top.isLink = false := by
  have hdir := fs.top_isDir
  cases h : fs.top with
  | dir entries => rfl
  | file f => rfl
  | link target => rw [h] at hdir; exact absurd hdir (by simp [Node.isDir])

/-- A path that was followed leads to something that is no link. -/
theorem find_isReal {fs : FileSystem} {path : List (Comp Name)} {p : List Name}
    (h : fs.find path = .ok p) : IsReal fs.top p := by
  have htop : IsReal fs.top [] := ⟨fs.top, rfl, fs.top_not_isLink⟩
  exact resolve_isReal fs.top_not_isLink fs.maxLinks htop h

/-- So what `canonical` answers with is none. -/
theorem canonical_isReal {fs : FileSystem} {path : List (Comp Name)} {p : List Name}
    (h : fs.canonical path = .ok p) : IsReal fs.top p := by
  unfold canonical at h
  split at h
  · rename_i q hq
    obtain rfl := Except.ok.inj h
    exact find_isReal hq
  · exact absurd h (by simp)

theorem find_real {fs : FileSystem} {p : List Name} (h : IsReal fs.top p) :
    fs.find (p.map .name) = .ok p := resolve_real h fs.maxLinks

/-- On a canonical path, `is_directory` looks at what is there. -/
theorem isDirectory_real {fs : FileSystem} {p : List Name} (h : IsReal fs.top p) :
    fs.isDirectory p = true ↔ ∃ entries, lookup fs.top p = some (.dir entries) := by
  rw [isDirectory, find_real h]
  dsimp only
  obtain ⟨node, hnode, _⟩ := h
  rw [hnode]
  cases node with
  | file f => simp [Node.isDir]
  | dir entries => simp [Node.isDir]
  | link target => simp [Node.isDir]

/-- **Opening a canonical path opens what is there.** -/
theorem openPath_real {fs : FileSystem} {p : List Name} (h : IsReal fs.top p) :
    fs.openPath p = (fs.openAt p).map (fun ifs => (p, ifs)) := by
  unfold openPath
  rw [find_real h]

/-! ## Two file systems -/

/-- The two are on one machine: what depends on the platform is the same. -/
structure SamePlatform (fs fs' : FileSystem) : Prop where
  maxLinks : fs'.maxLinks = fs.maxLinks
  directorySize : fs'.directorySize = fs.directorySize
  what : fs'.what = fs.what

/-- The two differ in nothing but what the files hold. -/
structure SameButContents (fs fs' : FileSystem) : Prop where
  platform : SamePlatform fs fs'
  cwd : fs'.cwd = fs.cwd
  kinds : ∀ place, kindAt fs'.top place = kindAt fs.top place
  readable : ∀ place f f', lookup fs.top place = some (.file f) →
    lookup fs'.top place = some (.file f') → f'.readable = f.readable

namespace SameButContents

variable {fs fs' : FileSystem}

theorem absolute (h : SameButContents fs fs') (text : Bytes) :
    fs'.absolute text = fs.absolute text := by
  unfold FileSystem.absolute
  rw [h.cwd]

/-- Paths lead to the same places. -/
theorem find (h : SameButContents fs fs') (path : List (Comp Name)) :
    fs'.find path = fs.find path := by
  unfold FileSystem.find
  rw [h.platform.maxLinks]
  exact resolve_alike h.kinds _ _ _

theorem canonical (h : SameButContents fs fs') (path : List (Comp Name)) :
    fs'.canonical path = fs.canonical path := by
  unfold FileSystem.canonical
  rw [h.find, h.platform.what]

/-- At each place there is nothing in both, or something of one kind. -/
theorem lookup_cases (h : SameButContents fs fs') (place : List Name) :
    (lookup fs.top place = none ∧ lookup fs'.top place = none)
      ∨ ∃ node node', lookup fs.top place = some node ∧ lookup fs'.top place = some node'
        ∧ node'.kind = node.kind := by
  have hkind := h.kinds place
  unfold kindAt at hkind
  cases hnode : lookup fs.top place with
  | none =>
      rw [hnode, Option.map_none, Option.map_eq_none_iff] at hkind
      exact Or.inl ⟨rfl, hkind⟩
  | some node =>
      rw [hnode] at hkind
      obtain ⟨node', hnode', hsame⟩ := Option.map_eq_some_iff.mp hkind
      exact Or.inr ⟨node, node', rfl, hnode', hsame⟩

theorem isDirectory (h : SameButContents fs fs') (path : List Name) :
    fs'.isDirectory path = fs.isDirectory path := by
  unfold FileSystem.isDirectory
  rw [h.find]
  cases fs.find (path.map .name) with
  | error e => rfl
  | ok place =>
      dsimp only
      rcases h.lookup_cases place with ⟨hnone, hnone'⟩ | ⟨node, node', hnode, hnode', hkind⟩
      · rw [hnone, hnone']
      · rw [hnode, hnode']
        cases node <;> cases node' <;> simp [Node.kind, Node.isDir] at hkind ⊢

/-- What can be opened in one can be opened in the other. -/
theorem openAt (h : SameButContents fs fs') (place : List Name) :
    (fs'.openAt place).isSome = (fs.openAt place).isSome := by
  have hreadable := h.readable place
  unfold FileSystem.openAt
  rw [h.platform.directorySize]
  rcases h.lookup_cases place with ⟨hnone, hnone'⟩ | ⟨node, node', hnode, hnode', hkind⟩
  · rw [hnone, hnone']
  · rw [hnode, hnode'] at hreadable ⊢
    cases node with
    | dir entries => cases node' <;> simp [Node.kind] at hkind ⊢
    | link target => cases node' <;> simp [Node.kind] at hkind ⊢
    | file f =>
        cases node' with
        | dir entries => simp [Node.kind] at hkind
        | link target => simp [Node.kind] at hkind
        | file f' =>
            have hsame := hreadable f f' rfl rfl
            dsimp only
            rw [hsame]
            split <;> rfl

theorem openPath (h : SameButContents fs fs') (path : List Name) :
    (fs'.openPath path).isSome = (fs.openPath path).isSome := by
  unfold FileSystem.openPath
  rw [h.find]
  cases fs.find (path.map .name) with
  | error e => rfl
  | ok place =>
      dsimp only
      rw [Option.isSome_map, Option.isSome_map, h.openAt]

end SameButContents

end FileSystem

end MobaDisplay
