import ModelDepot.Files.System

/-! # Ways through a file system

A way is what following names amounts to as long as nothing is missing: from each location a name leads to
the next. A path that leads somewhere has a way there, and a way stays as it is when the file system grows.
-/

namespace ModelDepot

namespace Files

/-- A name that is looked up: neither idle nor a step upward, and not too long. -/
structure Proper (name : Name) : Prop where
  ne_nil : name ≠ []
  ne_dot : name ≠ dot
  ne_dotDot : name ≠ dotDot
  length_le : name.length ≤ maxName

theorem proper_of_busy {name : Name} (busy : ¬ (name = [] ∨ name = dot)) (down : ¬ name = dotDot)
    (short : ¬ maxName < name.length) : Proper name :=
  ⟨fun h => busy (.inl h), fun h => busy (.inr h), down, by omega⟩

def Node.IsLink (n : Node) : Prop := ∃ target, n = .link target

/-- Nodes of one kind: only the bytes of files may differ. -/
def Node.Like : Node → Node → Prop
  | .file _, .file _ => True
  | n, n' => n = n'

theorem Node.Like.refl (n : Node) : n.Like n := by cases n <;> simp [Node.Like]

theorem Node.Like.symm {n n' : Node} (like : n.Like n') : n'.Like n := by
  cases n <;> cases n' <;> simp_all [Node.Like]

theorem Node.Like.trans {n n' n'' : Node} (like : n.Like n') (like' : n'.Like n'') : n.Like n'' := by
  cases n <;> cases n' <;> cases n'' <;> simp_all [Node.Like]

theorem Node.Like.isLink_iff {n n' : Node} (like : n.Like n') : n'.IsLink ↔ n.IsLink := by
  cases n <;> cases n' <;> simp_all [Node.Like, Node.IsLink]

theorem Node.Like.eq_of_directory {n' : Node} (like : Node.directory.Like n') : n' = .directory := by
  cases n' <;> simp_all [Node.Like]

theorem Node.Like.eq_of_link {target : Path} {n' : Node} (like : (Node.link target).Like n') :
    n' = .link target := by
  cases n' <;> simp_all [Node.Like]

namespace FileSystem

variable {fs fs' : FileSystem} {links left : Nat} {here there l : Location} {names more : List Name}

/-! ## Ways -/

/-- Names lead from a location to another; of the links that may be followed some are left. -/
inductive Way (fs : FileSystem) : Nat → Location → List Name → Nat → Location → Prop where
  | stay (links : Nat) (here : Location) : Way fs links here [] links here
  | idle {links left : Nat} {here l : Location} {name : Name} {rest : List Name}
      (directory : fs.node? here = some .directory) (idle : name = [] ∨ name = dot)
      (on : Way fs links here rest left l) : Way fs links here (name :: rest) left l
  | up {links left : Nat} {here l : Location} {rest : List Name}
      (directory : fs.node? here = some .directory) (on : Way fs links here.dropLast rest left l) :
      Way fs links here (dotDot :: rest) left l
  | down {links left : Nat} {here l : Location} {name : Name} {rest : List Name} {n : Node}
      (directory : fs.node? here = some .directory) (proper : Proper name)
      (node : fs.node? (here ++ [name]) = some n) (last : ¬ n.IsLink)
      (on : Way fs links (here ++ [name]) rest left l) : Way fs links here (name :: rest) left l
  | link {links left : Nat} {here l : Location} {name : Name} {rest : List Name} {target : Path}
      (directory : fs.node? here = some .directory) (proper : Proper name)
      (node : fs.node? (here ++ [name]) = some (.link target))
      (on : Way fs links (if target.isAbsolute then [] else here) (splitSlashes target.bytes ++ rest) left l) :
      Way fs (links + 1) here (name :: rest) left l

/-! ## Following, name by name -/

section
variable (last : Bool) {name : Name} {rest : List Name}

theorem follow_idle (directory : fs.node? here = some .directory) (idle : name = [] ∨ name = dot) :
    fs.follow last links here (name :: rest) = fs.follow last links here rest := by
  rw [follow.eq_def]
  simp only [directory, ne_eq, not_true, if_false, idle, if_true]

theorem follow_up (directory : fs.node? here = some .directory) :
    fs.follow last links here (dotDot :: rest) = fs.follow last links here.dropLast rest := by
  rw [follow.eq_def]
  simp only [directory, ne_eq, not_true, if_false, if_true]
  rw [if_neg (by decide)]

theorem follow_proper (directory : fs.node? here = some .directory) (proper : Proper name) :
    fs.follow last links here (name :: rest) =
      match fs.node? (here ++ [name]) with
      | none => if rest = [] then .ok (.free (here ++ [name])) else .error .noEntry
      | some (.link target) =>
        if rest = [] ∧ last = false then .ok (.found (here ++ [name]) (.link target))
        else
          match links with
          | 0 => .error .tooManyLinks
          | links + 1 =>
            fs.follow last links (if target.isAbsolute then [] else here) (splitSlashes target.bytes ++ rest)
      | some _ => fs.follow last links (here ++ [name]) rest := by
  have short := proper.length_le
  rw [follow.eq_def]
  simp only [directory, ne_eq, not_true, if_false, proper.ne_nil, proper.ne_dot, proper.ne_dotDot, false_or]
  have fits : ¬ maxName < name.length := by omega
  refine (if_neg fits).trans ?_
  cases fs.node? (here ++ [name]) with
  | none => rfl
  | some n => cases n <;> rfl

theorem follow_down (directory : fs.node? here = some .directory) (proper : Proper name) {n : Node}
    (node : fs.node? (here ++ [name]) = some n) (notLink : ¬ n.IsLink) :
    fs.follow last links here (name :: rest) = fs.follow last links (here ++ [name]) rest := by
  rw [follow_proper last directory proper, node]
  cases n with
  | link target => exact absurd ⟨target, rfl⟩ notLink
  | _ => rfl

theorem follow_link (directory : fs.node? here = some .directory) (proper : Proper name) {target : Path}
    (node : fs.node? (here ++ [name]) = some (.link target)) (on : rest ≠ [] ∨ last = true) :
    fs.follow last (links + 1) here (name :: rest) =
      fs.follow last links (if target.isAbsolute then [] else here) (splitSlashes target.bytes ++ rest) := by
  rw [follow_proper last directory proper, node]
  simp only
  rw [if_neg]
  rintro ⟨done, stays⟩
  cases on with
  | inl more => exact more done
  | inr goes => simp [goes] at stays

end

theorem Way.follow (way : Way fs links here names left there) (last : Bool)
    (on : more ≠ [] ∨ last = true) :
    fs.follow last links here (names ++ more) = fs.follow last left there more := by
  induction way with
  | stay => rfl
  | idle directory idle _ ih => rw [List.cons_append, follow_idle last directory idle, ih]
  | up directory _ ih => rw [List.cons_append, follow_up last directory, ih]
  | down directory proper node notLink _ ih =>
    rw [List.cons_append, follow_down last directory proper node notLink, ih]
  | link directory proper node _ ih =>
    have goesOn : ∀ rest : List Name, rest ++ more ≠ [] ∨ last = true := by
      intro rest
      exact on.imp_left fun h => by simp [h]
    rw [List.cons_append, follow_link last directory proper node (goesOn _), ← List.append_assoc, ih]

theorem follow_cons (last : Bool) {name : Name} {rest : List Name} {spot : Spot} (more : ∃ m ∈ rest, m ≠ [])
    (found : fs.follow last links here (name :: rest) = .ok spot) :
    fs.node? here = some .directory ∧
      ((name = [] ∨ name = dot) ∨ name = dotDot ∨
        Proper name ∧
          ((∃ n, fs.node? (here ++ [name]) = some n ∧ ¬ n.IsLink) ∨
            ∃ target below, fs.node? (here ++ [name]) = some (.link target) ∧ links = below + 1)) := by
  rw [follow.eq_def] at found
  by_cases directory : fs.node? here = some .directory
  case neg => simp [directory] at found
  refine ⟨directory, ?_⟩
  by_cases idle : name = [] ∨ name = dot
  case pos => exact .inl idle
  by_cases up : name = dotDot
  case pos => exact .inr (.inl up)
  refine .inr (.inr ?_)
  simp only [directory, ne_eq, not_true, if_false, idle, up] at found
  by_cases long : maxName < name.length
  case pos => simp [long] at found
  refine ⟨proper_of_busy idle up long, ?_⟩
  rw [if_neg long] at found
  cases node : fs.node? (here ++ [name]) with
  | none =>
    obtain ⟨m, hm, -⟩ := more
    simp [node, List.ne_nil_of_mem hm] at found
  | some n =>
    cases n with
    | link target =>
      obtain ⟨m, hm, -⟩ := more
      have goesOn : rest ≠ [] := List.ne_nil_of_mem hm
      cases links with
      | zero => simp [node, goesOn] at found
      | succ below => exact .inr ⟨target, below, rfl, rfl⟩
    | _ => exact .inl ⟨_, rfl, by simp [Node.IsLink]⟩

theorem exists_way (last : Bool) {links : Nat} {here : Location} {names : List Name} {spot : Spot}
    (beyond : ∃ m ∈ more, m ≠ []) (found : fs.follow last links here (names ++ more) = .ok spot) :
    ∃ left there, Way fs links here names left there ∧ fs.follow last left there more = .ok spot := by
  match names with
  | [] => exact ⟨links, here, .stay _ _, found⟩
  | name :: rest =>
    have more' : ∃ m ∈ rest ++ more, m ≠ [] := by
      obtain ⟨m, hm, ne⟩ := beyond
      exact ⟨m, List.mem_append_right _ hm, ne⟩
    obtain ⟨directory, idle | rfl | ⟨proper, ⟨n, node, notLink⟩ | ⟨target, below, node, rfl⟩⟩⟩ :=
      follow_cons last more' found
    · rw [List.cons_append, follow_idle last directory idle] at found
      obtain ⟨left, there, way, goes⟩ := exists_way last beyond found
      exact ⟨left, there, .idle directory idle way, goes⟩
    · rw [List.cons_append, follow_up last directory] at found
      obtain ⟨left, there, way, goes⟩ := exists_way last beyond found
      exact ⟨left, there, .up directory way, goes⟩
    · rw [List.cons_append, follow_down last directory proper node notLink] at found
      obtain ⟨left, there, way, goes⟩ := exists_way last beyond found
      exact ⟨left, there, .down directory proper node notLink way, goes⟩
    · have goesOn : rest ++ more ≠ [] := by
        obtain ⟨m, hm, -⟩ := more'
        exact List.ne_nil_of_mem hm
      rw [List.cons_append, follow_link last directory proper node (.inl goesOn), ← List.append_assoc] at found
      obtain ⟨left, there, way, goes⟩ := exists_way last beyond found
      exact ⟨left, there, .link directory proper node way, goes⟩
termination_by (links, names.length)

theorem follow_nil (last : Bool) {n : Node} (node : fs.node? here = some n) :
    fs.follow last links here [] = .ok (.found here n) := by
  rw [follow.eq_def]
  simp only [node]

theorem Way.unique {left' : Nat} {there' : Location} (way : Way fs links here names left there)
    (way' : Way fs links here names left' there') : left' = left ∧ there' = there := by
  induction way with
  | stay =>
    cases way'
    exact ⟨rfl, rfl⟩
  | idle directory idle _ ih =>
    cases way' with
    | idle _ _ on => exact ih on
    | up => exact absurd idle (by decide)
    | down _ proper | link _ proper => exact absurd idle (not_or.mpr ⟨proper.ne_nil, proper.ne_dot⟩)
  | up directory _ ih =>
    cases way' with
    | idle _ idle => exact absurd idle (by decide)
    | up _ on => exact ih on
    | down _ proper | link _ proper => exact absurd rfl proper.ne_dotDot
  | down directory proper node notLink _ ih =>
    cases way' with
    | idle _ idle => exact absurd idle (not_or.mpr ⟨proper.ne_nil, proper.ne_dot⟩)
    | up => exact absurd rfl proper.ne_dotDot
    | down _ _ _ _ on => exact ih on
    | link _ _ node' => exact absurd ⟨_, Option.some.inj (node.symm.trans node')⟩ notLink
  | link directory proper node _ ih =>
    cases way' with
    | idle _ idle => exact absurd idle (not_or.mpr ⟨proper.ne_nil, proper.ne_dot⟩)
    | up => exact absurd rfl proper.ne_dotDot
    | down _ _ node' notLink => exact absurd ⟨_, Option.some.inj (node'.symm.trans node)⟩ notLink
    | link _ _ node' on =>
      obtain ⟨rfl⟩ := Node.link.inj (Option.some.inj (node.symm.trans node'))
      exact ih on

/-! ## Growing -/

/-- Everything is still there; only the bytes of files may be others. -/
structure Grown (fs fs' : FileSystem) : Prop where
  node : ∀ l n, fs.node? l = some n → ∃ n', fs'.node? l = some n' ∧ n.Like n'
  workingDirectory : fs'.workingDirectory = fs.workingDirectory

theorem Grown.refl (fs : FileSystem) : Grown fs fs := ⟨fun _ n node => ⟨n, node, .refl n⟩, rfl⟩

theorem Grown.trans {fs'' : FileSystem} (h : Grown fs fs') (h' : Grown fs' fs'') : Grown fs fs'' where
  node := by
    intro l n hn
    obtain ⟨n', hn', like⟩ := h.node l n hn
    obtain ⟨n'', hn'', like'⟩ := h'.node l n' hn'
    exact ⟨n'', hn'', like.trans like'⟩
  workingDirectory := h'.workingDirectory.trans h.workingDirectory

theorem Grown.directory (grown : Grown fs fs') (h : fs.node? l = some .directory) :
    fs'.node? l = some .directory := by
  obtain ⟨n, hn, like⟩ := grown.node l _ h
  rw [hn, like.eq_of_directory]

theorem Way.grown (way : Way fs links here names left there) (grown : Grown fs fs') :
    Way fs' links here names left there := by
  induction way with
  | stay => exact .stay _ _
  | idle directory idle _ ih => exact .idle (grown.directory directory) idle ih
  | up directory _ ih => exact .up (grown.directory directory) ih
  | down directory proper node notLink _ ih =>
    obtain ⟨n', node', like⟩ := grown.node _ _ node
    exact .down (grown.directory directory) proper node' (mt like.isLink_iff.mp notLink) ih
  | link directory proper node _ ih =>
    obtain ⟨n', node', like⟩ := grown.node _ _ node
    rw [like.eq_of_link] at node'
    exact .link (grown.directory directory) proper node' ih

end FileSystem

end Files

end ModelDepot
