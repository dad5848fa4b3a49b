import Mathlib.Data.List.Induction

/-!
# A tree of directories, files and symbolic links, and how a path is resolved

A place in the tree is the list of names that lead to it from the top, through
directories only. `resolve` walks a path as the kernel does: `.` stays, `..` goes
up, a name goes down, and a link continues with its target, from the top or from
where the link stands. The number of links one resolution follows is bounded.

`resolve_isReal` says that a resolved path leads to something that is no link, and
`resolve_real` that such a place resolves to itself. `resolve_child` says what one
more name does behind a place that is resolved already. `resolve_congr` compares two
trees: a resolution sees of a place only the kind of what is there, so it ends alike
in both if they look alike at every place it looks at.
-/

namespace FileTree

variable {ν β : Type}

/-- A component of a path. -/
inductive Comp (ν : Type) where
  | here
  | up
  | name (n : ν)

/-- What a symbolic link holds. -/
structure Target (ν : Type) where
  absolute : Bool
  comps : List (Comp ν)

inductive Node (ν β : Type) where
  | file (content : β)
  | dir (entries : List (ν × Node ν β))
  | link (target : Target ν)

namespace Node

def isLink : Node ν β → Bool
  | link _ => true
  | _ => false

def isDir : Node ν β → Bool
  | dir _ => true
  | _ => false

end Node

inductive Error where
  | notFound
  | notDirectory
  | tooManyLinks
  deriving DecidableEq

variable [DecidableEq ν]

/-- The entry of a directory under a name. -/
def child : Node ν β → ν → Option (Node ν β)
  | .dir entries, n => entries.lookup n
  | .file _, _ => none
  | .link _, _ => none

/-- What is at a place. -/
def lookup : Node ν β → List ν → Option (Node ν β)
  | node, [] => some node
  | node, n :: ns => (child node n).bind (fun c => lookup c ns)

/-- The walk along one path; `follow` says how it continues at a link. -/
def walk (top : Node ν β) (follow : List ν → List (Comp ν) → Except Error (List ν)) :
    List ν → List (Comp ν) → Except Error (List ν)
  | place, [] => .ok place
  | place, c :: cs =>
      match lookup top place with
      | some (.dir entries) =>
          match c with
          | .here => walk top follow place cs
          | .up => walk top follow place.dropLast cs
          | .name n =>
              match entries.lookup n with
              | none => .error .notFound
              | some (.link target) =>
                  follow (if target.absolute then [] else place) (target.comps ++ cs)
              | some _ => walk top follow (place ++ [n]) cs
      | _ => .error .notDirectory

/-- Where a path leads from a place, over at most `n` links. -/
def resolve (top : Node ν β) : Nat → List ν → List (Comp ν) → Except Error (List ν)
  | 0 => walk top (fun _ _ => .error .tooManyLinks)
  | n + 1 => walk top (resolve top n)

/-- There is something at the place, and it is no link. -/
def IsReal (top : Node ν β) (place : List ν) : Prop :=
  ∃ node, lookup top place = some node ∧ node.isLink = false

/-! ## Places -/

theorem lookup_append (node : Node ν β) (p q : List ν) :
    lookup node (p ++ q) = (lookup node p).bind (fun c => lookup c q) := by
  induction p generalizing node with
  | nil => rfl
  | cons n p ih =>
      rw [List.cons_append, lookup, lookup]
      cases child node n with
      | none => rfl
      | some c => exact ih c

theorem lookup_snoc (node : Node ν β) (p : List ν) (n : ν) :
    lookup node (p ++ [n]) = (lookup node p).bind (fun c => child c n) := by
  rw [lookup_append]
  cases lookup node p with
  | none => rfl
  | some c =>
      show (child c n).bind some = child c n
      cases child c n <;> rfl

theorem child_dir {node c : Node ν β} {n : ν} (h : child node n = some c) :
    ∃ entries, node = .dir entries ∧ entries.lookup n = some c := by
  cases node with
  | file b => exact absurd h (by simp [child])
  | link t => exact absurd h (by simp [child])
  | dir entries => exact ⟨entries, rfl, h⟩

/-- Above something there is a directory that holds it. -/
theorem lookup_parent {top c : Node ν β} {p : List ν} {n : ν}
    (h : lookup top (p ++ [n]) = some c) :
    ∃ entries, lookup top p = some (.dir entries) ∧ entries.lookup n = some c := by
  rw [lookup_snoc] at h
  obtain ⟨node, hnode, hchild⟩ := Option.bind_eq_some_iff.mp h
  obtain ⟨entries, rfl, hentry⟩ := child_dir hchild
  exact ⟨entries, hnode, hentry⟩

theorem isReal_dir {top : Node ν β} {p : List ν} {entries : List (ν × Node ν β)}
    (h : lookup top p = some (.dir entries)) : IsReal top p := ⟨_, h, rfl⟩

theorem isReal_parent {top : Node ν β} {p : List ν} (h : IsReal top p) : IsReal top p.dropLast := by
  induction p using List.reverseRecOn with
  | nil => exact h
  | append_singleton p n _ =>
      obtain ⟨c, hc, _⟩ := h
      obtain ⟨entries, hdir, _⟩ := lookup_parent hc
      rw [List.dropLast_concat]
      exact isReal_dir hdir

/-! ## What a resolution leads to -/

theorem walk_isReal {top : Node ν β} {follow : List ν → List (Comp ν) → Except Error (List ν)}
    (htop : top.isLink = false)
    (hfollow : ∀ p cs q, IsReal top p → follow p cs = .ok q → IsReal top q)
    (cs : List (Comp ν)) : ∀ (p : List ν) {q : List ν}, IsReal top p →
      walk top follow p cs = .ok q → IsReal top q := by
  induction cs with
  | nil =>
      intro p q hp h
      obtain rfl := Except.ok.inj h
      exact hp
  | cons c cs ih =>
      intro p q hp h
      rw [walk] at h
      split at h
      · rename_i entries hdir
        cases c with
        | here => exact ih p hp h
        | up => exact ih p.dropLast (isReal_parent hp) h
        | name n =>
            dsimp only at h
            split at h
            · exact absurd h (by simp)
            · -- the target is walked from the top or from the directory of the link
              rename_i target hentry
              refine hfollow _ _ q ?_ h
              by_cases habs : target.absolute = true
              · rw [if_pos habs]
                exact ⟨top, rfl, htop⟩
              · rw [if_neg habs]
                exact isReal_dir hdir
            · rename_i node hnot hentry
              refine ih (p ++ [n]) ⟨node, ?_, ?_⟩ h
              · rw [lookup_snoc, hdir]
                exact hentry
              · cases node with
                | file b => rfl
                | dir es => rfl
                | link target => exact absurd rfl (hnot target)
      · exact absurd h (by simp)

/-- **A resolved path leads to something that is no link.** -/
theorem resolve_isReal {top : Node ν β} (htop : top.isLink = false) (n : Nat)
    {p q : List ν} {cs : List (Comp ν)} (hp : IsReal top p) (h : resolve top n p cs = .ok q) :
    IsReal top q := by
  induction n generalizing p q cs with
  | zero => exact walk_isReal htop (fun _ _ _ _ hf => absurd hf (by simp)) cs p hp h
  | succ n ih => exact walk_isReal htop (fun _ _ _ hp' hf => ih hp' hf) cs p hp h

/-- Names that lead to something real are walked without a link. -/
theorem walk_names {top : Node ν β} {follow : List ν → List (Comp ν) → Except Error (List ν)}
    (cs : List (Comp ν)) : ∀ (ns p : List ν), IsReal top (p ++ ns) →
      walk top follow p (ns.map .name ++ cs) = walk top follow (p ++ ns) cs := by
  intro ns
  induction ns with
  | nil =>
      intro p _
      rw [List.append_nil]
      rfl
  | cons n ns ih =>
      intro p h
      obtain ⟨node, hnode, hlink⟩ := id h
      -- the first of the names is an entry of the directory at `p`
      have hsplit : p ++ n :: ns = (p ++ [n]) ++ ns := by simp
      rw [hsplit, lookup_append] at hnode
      obtain ⟨c, hc, hrest⟩ := Option.bind_eq_some_iff.mp hnode
      obtain ⟨entries, hdir, hentry⟩ := lookup_parent hc
      have hcnot : ∀ target, c ≠ .link target := by
        rintro target rfl
        cases ns with
        | nil =>
            obtain rfl := Option.some.inj hrest
            exact Bool.noConfusion hlink
        | cons m ns => exact absurd hrest (by simp [lookup, child])
      have hih := ih (p ++ [n]) (by rw [← hsplit]; exact h)
      rw [hsplit, ← hih, List.map_cons, List.cons_append, walk, hdir]
      dsimp only
      rw [hentry]
      cases c with
      | file b => rfl
      | dir es => rfl
      | link target => exact absurd rfl (hcnot target)

/-- **Something that is no link resolves to itself.** -/
theorem resolve_real {top : Node ν β} {p : List ν} (h : IsReal top p) (n : Nat) :
    resolve top n [] (p.map .name) = .ok p := by
  have hwalk : ∀ follow, walk top follow [] (p.map .name) = .ok p := by
    intro follow
    have hnames : walk top follow [] (p.map .name ++ []) = walk top follow ([] ++ p) [] :=
      walk_names [] p [] (by rwa [List.nil_append])
    rw [List.append_nil, List.nil_append] at hnames
    rw [hnames]
    rfl
  cases n with
  | zero => exact hwalk _
  | succ n => exact hwalk _

/-- The walk to one more name behind a directory. -/
theorem walk_child {top : Node ν β} {follow : List ν → List (Comp ν) → Except Error (List ν)}
    {p : List ν} {entries : List (ν × Node ν β)} (h : lookup top p = some (.dir entries)) (m : ν) :
    walk top follow [] ((p ++ [m]).map .name)
      = match entries.lookup m with
        | none => .error .notFound
        | some (.link target) => follow (if target.absolute then [] else p) target.comps
        | some _ => .ok (p ++ [m]) := by
  have hreal : IsReal top ([] ++ p) := by
    rw [List.nil_append]
    exact isReal_dir h
  have hdown : walk top follow [] ((p ++ [m]).map .name) = walk top follow p [.name m] := by
    rw [List.map_append, walk_names _ p [] hreal, List.nil_append]
    rfl
  rw [hdown, walk, h]
  dsimp only
  cases hentry : entries.lookup m with
  | none => rfl
  | some node =>
      cases node with
      | file b => rfl
      | dir es => rfl
      | link target =>
          dsimp only
          rw [List.append_nil]

/-- **One more name** behind a directory: nothing there, something real, or a link. -/
theorem resolve_child {top : Node ν β} {p : List ν} {entries : List (ν × Node ν β)}
    (h : lookup top p = some (.dir entries)) (m : ν) (n : Nat) :
    resolve top n [] ((p ++ [m]).map .name)
      = match lookup top (p ++ [m]) with
        | none => .error .notFound
        | some (.link target) =>
            match n with
            | 0 => .error .tooManyLinks
            | k + 1 => resolve top k (if target.absolute then [] else p) target.comps
        | some _ => .ok (p ++ [m]) := by
  have hentries : lookup top (p ++ [m]) = entries.lookup m := by
    rw [lookup_snoc, h]
    rfl
  rw [hentries]
  cases n with
  | zero => exact walk_child h m
  | succ n => exact walk_child h m

/-! ## What a resolution looks at -/

/-- What a walk sees of a node. -/
inductive Kind (ν : Type) where
  | file
  | dir
  | link (target : Target ν)

def Node.kind : Node ν β → Kind ν
  | file _ => .file
  | dir _ => .dir
  | link target => .link target

/-- What a walk sees at a place. -/
def kindAt (top : Node ν β) (place : List ν) : Option (Kind ν) := (lookup top place).map Node.kind

theorem kindAt_of_dir {top : Node ν β} {place : List ν} {entries : List (ν × Node ν β)}
    (h : lookup top place = some (.dir entries)) : kindAt top place = some .dir := by
  unfold kindAt
  rw [h]
  rfl

/-- **One step of a walk**, by what it sees. -/
theorem walk_cons (top : Node ν β) (follow : List ν → List (Comp ν) → Except Error (List ν))
    (place : List ν) (c : Comp ν) (cs : List (Comp ν)) :
    walk top follow place (c :: cs)
      = match kindAt top place with
        | some .dir =>
            match c with
            | .here => walk top follow place cs
            | .up => walk top follow place.dropLast cs
            | .name n =>
                match kindAt top (place ++ [n]) with
                | none => .error .notFound
                | some (.link target) =>
                    follow (if target.absolute then [] else place) (target.comps ++ cs)
                | some _ => walk top follow (place ++ [n]) cs
        | _ => .error .notDirectory := by
  rw [walk]
  cases hplace : lookup top place with
  | none => simp [kindAt, hplace]
  | some node =>
      cases node with
      | file b => simp [kindAt, hplace, Node.kind]
      | link target => simp [kindAt, hplace, Node.kind]
      | dir entries =>
          rw [kindAt_of_dir hplace]
          cases c with
          | here => rfl
          | up => rfl
          | name n =>
              have hentry : kindAt top (place ++ [n]) = (entries.lookup n).map Node.kind := by
                rw [kindAt, lookup_snoc, hplace]
                rfl
              dsimp only
              rw [hentry]
              cases entries.lookup n with
              | none => rfl
              | some entry => cases entry <;> rfl

/-- All the places a walk looks at are in `P`; `followIn` says so of what is behind a link. -/
def WalkIn (P : List ν → Prop) (top : Node ν β) (followIn : List ν → List (Comp ν) → Prop) :
    List ν → List (Comp ν) → Prop
  | _, [] => True
  | place, c :: cs =>
      P place ∧
        match kindAt top place with
        | some .dir =>
            match c with
            | .here => WalkIn P top followIn place cs
            | .up => WalkIn P top followIn place.dropLast cs
            | .name n =>
                P (place ++ [n]) ∧
                  match kindAt top (place ++ [n]) with
                  | none => True
                  | some (.link target) =>
                      followIn (if target.absolute then [] else place) (target.comps ++ cs)
                  | some _ => WalkIn P top followIn (place ++ [n]) cs
        | _ => True

/-- All the places a resolution looks at are in `P`. -/
def ResolveIn (P : List ν → Prop) (top : Node ν β) : Nat → List ν → List (Comp ν) → Prop
  | 0 => WalkIn P top (fun _ _ => True)
  | n + 1 => WalkIn P top (ResolveIn P top n)

theorem walk_congr {γ : Type} {P : List ν → Prop} {top : Node ν β} {top' : Node ν γ}
    {follow follow' : List ν → List (Comp ν) → Except Error (List ν)}
    {followIn : List ν → List (Comp ν) → Prop}
    (halike : ∀ q, P q → kindAt top' q = kindAt top q)
    (hfollow : ∀ q ds, followIn q ds → follow' q ds = follow q ds) (cs : List (Comp ν)) :
    ∀ p, WalkIn P top followIn p cs → walk top' follow' p cs = walk top follow p cs := by
  induction cs with
  | nil =>
      intro p _
      rfl
  | cons c cs ih =>
      intro p h
      obtain ⟨hp, hnext⟩ := h
      rw [walk_cons, walk_cons, halike p hp]
      cases hkind : kindAt top p with
      | none => rfl
      | some kind =>
          rw [hkind] at hnext
          cases kind with
          | file => rfl
          | link target => rfl
          | dir =>
              cases c with
              | here => exact ih p hnext
              | up => exact ih p.dropLast hnext
              | name n =>
                  obtain ⟨hn, hentry⟩ := hnext
                  dsimp only
                  rw [halike _ hn]
                  cases hkind' : kindAt top (p ++ [n]) with
                  | none => rfl
                  | some entry =>
                      rw [hkind'] at hentry
                      cases entry with
                      | file => exact ih (p ++ [n]) hentry
                      | dir => exact ih (p ++ [n]) hentry
                      | link target => exact hfollow _ _ hentry

/-- **Two trees that look alike where a resolution looks** resolve the path alike. -/
theorem resolve_congr {γ : Type} {P : List ν → Prop} {top : Node ν β} {top' : Node ν γ}
    (halike : ∀ q, P q → kindAt top' q = kindAt top q) (n : Nat) :
    ∀ (p : List ν) (cs : List (Comp ν)), ResolveIn P top n p cs →
      resolve top' n p cs = resolve top n p cs := by
  induction n with
  | zero =>
      intro p cs h
      exact walk_congr halike (fun _ _ _ => rfl) cs p h
  | succ n ih =>
      intro p cs h
      exact walk_congr halike ih cs p h

theorem walkIn_of_forall {P : List ν → Prop} {top : Node ν β}
    {followIn : List ν → List (Comp ν) → Prop} (hP : ∀ q, P q) (hfollow : ∀ q ds, followIn q ds)
    (cs : List (Comp ν)) : ∀ p, WalkIn P top followIn p cs := by
  induction cs with
  | nil =>
      intro p
      trivial
  | cons c cs ih =>
      intro p
      refine ⟨hP p, ?_⟩
      split
      · cases c with
        | here => exact ih p
        | up => exact ih p.dropLast
        | name n =>
            refine ⟨hP _, ?_⟩
            split
            · trivial
            · exact hfollow _ _
            · exact ih (p ++ [n])
      · trivial

/-- Two trees that look alike everywhere resolve every path alike. -/
theorem resolve_alike {γ : Type} {top : Node ν β} {top' : Node ν γ}
    (halike : ∀ q, kindAt top' q = kindAt top q) (n : Nat) (p : List ν) (cs : List (Comp ν)) :
    resolve top' n p cs = resolve top n p cs := by
  have hall : ∀ (m : Nat) (q : List ν) (ds : List (Comp ν)),
      ResolveIn (fun _ => True) top m q ds := by
    intro m
    induction m with
    | zero =>
        intro q ds
        exact walkIn_of_forall (fun _ => trivial) (fun _ _ => trivial) ds q
    | succ m ih =>
        intro q ds
        exact walkIn_of_forall (fun _ => trivial) ih ds q
  exact resolve_congr (fun q _ => halike q) n p cs (hall n p cs)

/-- Above a place where something is, there are directories. -/
theorem kindAt_above {top node : Node ν β} {p q : List ν} {n : ν}
    (h : lookup top (p ++ n :: q) = some node) : kindAt top p = some .dir := by
  rw [lookup_append] at h
  obtain ⟨c, hc, hrest⟩ := Option.bind_eq_some_iff.mp h
  rw [lookup, Option.bind_eq_some_iff] at hrest
  obtain ⟨_, hchild, _⟩ := hrest
  obtain ⟨entries, rfl, _⟩ := child_dir hchild
  exact kindAt_of_dir hc

/-- **Trees with the same thing at one place** look alike there, below it and above it. -/
theorem kindAt_comparable {top top' node : Node ν β} {w : List ν}
    (h : lookup top w = some node) (h' : lookup top' w = some node) :
    ∀ q, q <+: w ∨ w <+: q → kindAt top' q = kindAt top q := by
  intro q hq
  rcases hq with ⟨rest, rfl⟩ | ⟨rest, rfl⟩
  · cases rest with
    | nil =>
        rw [List.append_nil] at h h'
        rw [kindAt, kindAt, h, h']
    | cons n rest => rw [kindAt_above h, kindAt_above h']
  · rw [kindAt, kindAt, lookup_append, lookup_append, h, h']

end FileTree
