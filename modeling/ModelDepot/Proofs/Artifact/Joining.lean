import ModelDepot.Boosting.Materializer
import ModelDepot.Proofs.Boosting.Staging
import ModelDepot.Proofs.Files.Below
import ModelDepot.Proofs.Url.Reading

/-! # Names in the directory of a URI

A name is put after the text of a URI, and a store reads what comes out. That is a path in the directory of the URI
unless the text of the URI ends in something that is no part of a path.
-/

namespace ModelDepot

open Files (Name Path Segment slash splitSlashes)

/-! ## Paths -/

namespace Files.Path

/-- A path in a directory: one name more, and nothing else. -/
structure Inside (p q : Path) (name : Name) : Prop where
  start : q.parts.1 = p.parts.1
  names : q.names = p.names ++ [name]

theorem parts_of_pieces {p : Path} {first : Name} {rest : List Name} (pieces : splitSlashes p.bytes = first :: rest)
    (more : first = [] → rest ≠ []) :
    p.parts = if first = [] then ([slash], rest) else if first = dot then (dot, rest) else ([], first :: rest) := by
  unfold parts
  rw [pieces]
  by_cases empty : first = []
  · have : rest.isEmpty = false := by simpa using more empty
    simp [empty, this]
  · simp [empty]

theorem inside_of_bytes {p : Path} {bytes : List UInt8} {name : Name} (segment : Segment name)
    (h : p.bytes = bytes ∧ bytes ≠ [] ∨ p.bytes = bytes ++ [slash]) : p.Inside ⟨bytes ++ slash :: name⟩ name := by
  have alone := Files.splitSlashes_of_noSlash name segment.noSlash
  have busy : isIdle name = false := by simp [isIdle, segment.ne_nil, segment.ne_dot]
  obtain ⟨first, rest, pieces⟩ := List.exists_cons_of_ne_nil (Files.splitSlashes_ne_nil bytes)
  have after : splitSlashes (bytes ++ slash :: name) = first :: (rest ++ [name]) := by
    rw [Files.splitSlashes_append, pieces, alone, List.cons_append]
  obtain ⟨idle, before, idles, more⟩ : ∃ idle, splitSlashes p.bytes = first :: (rest ++ idle) ∧
      idle.filter (! isIdle ·) = [] ∧ (first = [] → rest ++ idle ≠ []) := by
    rcases h with ⟨h, ne⟩ | h
    · refine ⟨[], by rw [h, pieces, List.append_nil], rfl, ?_⟩
      rintro rfl none'
      rw [List.append_nil] at none'
      have whole := Files.joinSlashes_splitSlashes bytes
      rw [pieces, none'] at whole
      exact ne whole.symm
    · refine ⟨[[]], ?_, rfl, by simp⟩
      rw [h, Files.splitSlashes_append, pieces]
      rfl
  have was := parts_of_pieces before more
  have is := parts_of_pieces (p := ⟨bytes ++ slash :: name⟩) after (by simp)
  constructor
  · rw [was, is]
    split
    · rfl
    · split <;> rfl
  · unfold names
    rw [was, is]
    have kept : (rest ++ [name]).filter (! isIdle ·) = (rest ++ idle).filter (! isIdle ·) ++ [name] := by
      simp [List.filter_append, idles, busy]
    split
    · exact kept
    · split
      · exact kept
      · rw [List.filter_cons, List.filter_cons, kept]
        split <;> rfl

end Files.Path

/-! ## URLs of files -/

namespace Url

open Boosting.Materializer (fileName)

theorem ofChars_of_file {text rest : List Char}
    (begins : takeScheme? (cleaned text) = some ("file".toList, '/' :: '/' :: rest)) :
    ∃ query fragment, ofChars text = (fileOf (rest.takeWhile (! endsRoute ·))).map fun found =>
      ⟨"file".toList, none, found.1, none, found.2, query, fragment⟩ := by
  have body : ('/' :: '/' :: rest).takeWhile (! endsRoute ·) = '/' :: '/' :: rest.takeWhile (! endsRoute ·) := rfl
  have slashes : (isSlash true '/' && isSlash true '/') = true := rfl
  unfold ofChars
  simp only [begins, body, if_true, decide_true, Bool.true_or, slashes]
  refine ⟨(tailOf ('/' :: '/' :: rest)).1.map (escape (inQuery true)),
    (tailOf ('/' :: '/' :: rest)).2.map (escape inFragment), ?_⟩
  cases fileOf (rest.takeWhile (! endsRoute ·)) <;> rfl

/-- The path of the segments of a route. -/
def pathOf (segments : List (List Char)) : Path :=
  let bytes := segments.flatMap fun s => slash :: unescape s
  ⟨if endsInDrive bytes then bytes ++ [slash] else bytes⟩

/-- A file's route has no empty segment at its beginning. -/
def settled (segments : List (List Char)) : List (List Char) :=
  match segments.dropWhile List.isEmpty with
  | [] => [[]]
  | kept => kept

theorem segmentsOf_file (cs : List Char) :
    segmentsOf true true cs = settled (addPieces true [] (Host.split (isSlash true) cs)) := rfl

theorem settled_eq (segments : List (List Char)) :
    settled segments =
      if segments.dropWhile List.isEmpty = [] then [[]] else segments.dropWhile List.isEmpty := by
  unfold settled
  split
  · next h => rw [if_pos h]
  · next h => rw [if_neg h]

theorem dropWhile_concat (segments : List (List Char)) (last : List Char) :
    (segments ++ [last]).dropWhile List.isEmpty =
      if segments.dropWhile List.isEmpty = [] ∧ last = [] then [] else segments.dropWhile List.isEmpty ++ [last] := by
  rw [List.dropWhile_append]
  cases segments.dropWhile List.isEmpty <;> cases last <;> simp

theorem endsInDrive_concat {bytes : List UInt8} {last : UInt8} (h : (last == 0x3a || last == 0x7c) = false) :
    endsInDrive (bytes ++ [last]) = false := by
  unfold endsInDrive
  rw [List.reverse_append, List.reverse_singleton, List.singleton_append]
  split
  · next same =>
    obtain rfl := (List.cons.inj same).1
    rw [h, Bool.false_and, Bool.false_and]
  · rfl

/-- The segments of a directory and of a file in it. -/
def Holding (segments inner : List (List Char)) : Prop :=
  ∃ kept, (segments = settled kept ∨ segments = settled (kept ++ [[]])) ∧ inner = settled (kept ++ [fileName.toList])

theorem inside_of_holding {segments inner : List (List Char)} (h : Holding segments inner) :
    (pathOf segments).Inside (pathOf inner) (Text.utf8 fileName) := by
  obtain ⟨kept, outer, rfl⟩ := h
  have name : unescape fileName.toList = Text.utf8 "model.jso" ++ [0x6e] := by decide +kernel
  have spelled : Text.utf8 "model.jso" ++ [0x6e] = Text.utf8 fileName := by decide +kernel
  rw [settled_eq, settled_eq, dropWhile_concat] at outer
  have some' : fileName.toList ≠ [] := by decide
  have whole := (dropWhile_concat kept fileName.toList).trans (if_neg fun none' => some' none'.2)
  rw [settled_eq (kept ++ [fileName.toList]), whole, if_neg (by simp)]
  clear whole
  generalize kept.dropWhile List.isEmpty = kept at outer ⊢
  have inner : pathOf (kept ++ [fileName.toList]) =
      ⟨kept.flatMap (fun s => slash :: unescape s) ++ slash :: Text.utf8 fileName⟩ := by
    unfold pathOf
    simp only [List.flatMap_append, List.flatMap_singleton, name, ← spelled]
    rw [← List.cons_append, ← List.append_assoc, endsInDrive_concat rfl, if_neg Bool.false_ne_true, List.append_assoc]
  rw [inner]
  refine Path.inside_of_bytes Boosting.Materializer.segment_fileName ?_
  by_cases none' : kept = []
  · subst none'
    right
    obtain rfl : segments = [[]] := by simpa using outer
    rfl
  · have there : kept.flatMap (fun s => slash :: unescape s) ≠ [] := by
      obtain ⟨s, rest, rfl⟩ := List.exists_cons_of_ne_nil none'
      simp
    simp only [none', false_and, if_false, List.append_eq_nil_iff, List.cons_ne_nil, and_false] at outer
    rcases outer with same | same <;> rw [same, pathOf]
    · by_cases drive : endsInDrive (kept.flatMap fun s => slash :: unescape s)
      · exact .inr (if_pos drive)
      · exact .inl ⟨if_neg drive, there⟩
    · right
      have ends : (kept ++ [[]]).flatMap (fun s => slash :: unescape s) =
          kept.flatMap (fun s => slash :: unescape s) ++ [slash] := by
        simp [unescape]
      have noDrive : endsInDrive (kept.flatMap (fun s => slash :: unescape s) ++ [slash]) = false :=
        endsInDrive_concat rfl
      rw [ends]
      exact if_neg (by simp [noDrive])

theorem addPieces_name (ps : List (List Char)) :
    ∃ kept, addPieces true [] (ps ++ [fileName.toList]) = kept ++ [fileName.toList] ∧
      addPieces true [] (ps ++ [[]]) = kept ++ [[]] ∧
      (addPieces true [] ps = kept ∨ addPieces true [] ps = kept ++ [[]]) := by
  refine ⟨ps.foldl (addPiece true false) [], ?_, ?_, ?_⟩
  · rw [addPieces_append _ _ _ (by simp)]
    exact addPiece_of_plain true true _ (by decide) (by decide)
  · rw [addPieces_append _ _ _ (by simp)]
    exact addPiece_of_plain true true _ (by decide) (by decide)
  · obtain rfl | ⟨front, p, rfl⟩ := List.eq_nil_or_concat ps
    · exact .inl rfl
    · rw [List.concat_eq_append, addPieces_append _ _ _ (by simp), List.foldl_append, List.foldl_cons, List.foldl_nil]
      simp only [addPieces]
      generalize front.foldl (addPiece true false) [] = segments
      by_cases double : isDoubleDot p
      · exact .inr (by simp [addPiece, double])
      · by_cases single : isSingleDot p
        · exact .inr (by simp [addPiece, double, single])
        · exact .inl (by simp [addPiece, double, single])

/-- A route that begins with a drive. -/
def onDrive (rest : List Char) : Bool :=
  match rest with
  | _ :: more => isDrive (more.takeWhile (! isSlash true ·))
  | [] => false

def hostOf (name rest : List Char) : Except Fault (Option Host) :=
  if name.isEmpty then .ok none
  else (Host.ofChars name).map fun host => if onDrive rest || host == .domain "localhost".toList then none else some host

theorem fileOf_eq (cs : List Char) :
    fileOf cs =
      if isDriveHost (cs.takeWhile (! isSlash true ·)) then .ok (none, .segments (segmentsOf true true cs))
      else (hostOf (cs.takeWhile (! isSlash true ·)) (cs.dropWhile (! isSlash true ·))).map fun host =>
        (host, routeOf true true (cs.dropWhile (! isSlash true ·))) := by
  unfold fileOf hostOf
  dsimp only
  split
  · rfl
  · split
    · rfl
    · cases Host.ofChars (cs.takeWhile (! isSlash true ·)) <;> rfl

theorem onDrive_slash (front more : List Char) (noDrive : isDrive (more.takeWhile (! isSlash true ·)) = false) :
    onDrive (front ++ '/' :: more) = onDrive front := by
  cases front with
  | nil => exact noDrive
  | cons c rest => rw [List.cons_append, onDrive, takeWhile_slash, onDrive]

theorem routeOf_file {cs : List Char} (slashed : ∀ c, cs.head? = some c → isSlash true c = true) :
    routeOf true true cs = .segments (settled (addPieces true [] (Host.split (isSlash true) cs).tail)) := by
  cases cs with
  | nil => rfl
  | cons c rest =>
    have slash := slashed c rfl
    rw [routeOf, Host.split, slash]
    rfl

theorem fileOf_name {front cs : List Char} {segments : List (List Char)} (ending : cs = front ∨ cs = front ++ ['/'])
    (h : fileOf cs = .ok (none, .segments segments)) :
    ∃ inner, fileOf (front ++ '/' :: fileName.toList) = .ok (none, .segments inner) ∧ Holding segments inner := by
  have noSlash : fileName.toList.all (! isSlash true ·) = true := by decide
  have piece : Host.split (isSlash true) fileName.toList = [fileName.toList] :=
    Host.split_of_forall (by simpa using noSlash)
  have name : cs.takeWhile (! isSlash true ·) = front.takeWhile (! isSlash true ·) := by
    rcases ending with rfl | rfl
    · rfl
    · exact takeWhile_slash front []
  rw [fileOf_eq, name] at h
  rw [fileOf_eq, takeWhile_slash, dropWhile_slash]
  split at h
  · next drive =>
    obtain rfl := Route.segments.inj (Prod.mk.inj (Except.ok.inj h)).2
    obtain ⟨kept, inner, closed, opened⟩ := addPieces_name (Host.split (isSlash true) front)
    rw [if_pos drive]
    refine ⟨_, rfl, kept, ?_, ?_⟩
    · rw [segmentsOf_file]
      rcases ending with rfl | rfl
      · exact opened.imp (congrArg settled) (congrArg settled)
      · rw [Host.split_append _ _ rfl]
        exact .inr (congrArg settled closed)
    · rw [segmentsOf_file, Host.split_append _ _ rfl, piece, inner]
  · next noDrive =>
    rw [if_neg noDrive]
    have slashed := slashed_of_dropWhile front
    have rest : cs.dropWhile (! isSlash true ·) = front.dropWhile (! isSlash true ·) ∨
        cs.dropWhile (! isSlash true ·) = front.dropWhile (! isSlash true ·) ++ ['/'] := by
      rcases ending with rfl | rfl
      · exact .inl rfl
      · exact .inr (dropWhile_slash front [])
    generalize front.dropWhile (! isSlash true ·) = path, cs.dropWhile (! isSlash true ·) = path' at rest slashed h ⊢
    have same : onDrive path' = onDrive (path ++ '/' :: fileName.toList) := by
      rw [onDrive_slash path _ (by decide)]
      rcases rest with rfl | rfl
      · rfl
      · exact onDrive_slash path [] rfl
    have sameHost : ∀ name, hostOf name (path ++ '/' :: fileName.toList) = hostOf name path' := by
      intro name
      rw [hostOf, hostOf, same]
    rw [sameHost]
    cases host : hostOf (front.takeWhile (! isSlash true ·)) path' with
    | error e => simp [host, Except.map] at h
    | ok host? =>
      obtain ⟨none', route⟩ := Prod.mk.inj (Except.ok.inj (host ▸ h))
      obtain rfl : host? = none := none'
      obtain ⟨kept, inner, closed, opened⟩ := addPieces_name (Host.split (isSlash true) path).tail
      obtain ⟨after, route', pieces⟩ := routeOf_append true slashed fileName.toList
      refine ⟨segmentsOf true true after, ?_, kept, ?_, ?_⟩
      · rw [route']
        rfl
      · rcases rest with rfl | rfl
        · rw [routeOf_file slashed] at route
          obtain rfl := Route.segments.inj route
          exact opened.imp (congrArg settled) (congrArg settled)
        · obtain ⟨after, route', pieces⟩ := routeOf_append true slashed []
          rw [route'] at route
          obtain rfl := Route.segments.inj route
          rw [segmentsOf_file, pieces]
          exact .inr (congrArg settled closed)
      · rw [segmentsOf_file, pieces, piece, inner]

end Url

/-! ## The store -/

namespace Artifact.Store

open Boosting.Materializer (fileName)

theorem joinUri_eq (base name : String) :
    joinUri base name =
      if base.isEmpty then name
      else if ['/'] <:+ base.toList then base ++ name
      else base ++ "/" ++ name := by
  have ends : base.endsWith "/" = true ↔ ['/'] <:+ base.toList := by
    rw [← String.endsWith_toSlice, String.Slice.endsWith_string_iff]
    simp
  unfold joinUri
  simp only [ends]

theorem toList_joinUri {base : String} (ne : base ≠ "") (name : String) :
    ∃ front, (base.toList = front ∧ front.getLast? ≠ some '/' ∨ base.toList = front ++ ['/']) ∧
      (joinUri base name).toList = front ++ '/' :: name.toList := by
  rw [joinUri_eq, String.isEmpty_eq_false_iff.mpr ne, if_neg Bool.false_ne_true]
  by_cases slashed : ['/'] <:+ base.toList
  · obtain ⟨front, whole⟩ := slashed
    refine ⟨front, .inr whole.symm, ?_⟩
    rw [if_pos ⟨front, whole⟩, String.toList_append, ← whole, List.append_assoc]
    rfl
  · refine ⟨base.toList, .inl ⟨rfl, fun last => slashed ?_⟩, ?_⟩
    · exact List.getLast?_eq_some_iff.mp last |>.imp fun front whole => whole.symm
    · rw [if_neg slashed, String.toList_append, String.toList_append, List.append_assoc]
      rfl

theorem prefix_joinUri {base : String} (ne : base ≠ "") (name : String) :
    base.toList <+: (joinUri base name).toList := by
  obtain ⟨front, ending, joined⟩ := toList_joinUri ne name
  rw [joined]
  rcases ending with ⟨same, -⟩ | same
  · exact same ▸ List.prefix_append _ _
  · exact ⟨name.toList, by rw [same, List.append_assoc]; rfl⟩

theorem ne_empty_of_startsWith {uri : String} (file : uri.startsWith fileScheme = true) : uri ≠ "" := by
  rintro rfl
  exact absurd file (by decide)

theorem startsWith_joinUri {uri : String} (file : uri.startsWith fileScheme = true) (name : String) :
    (joinUri uri name).startsWith fileScheme = true := by
  have start := prefix_joinUri (ne_empty_of_startsWith file) name
  rw [String.startsWith_string_iff] at file ⊢
  exact file.trans start

/-- The text of a file's URL ends in what belongs to its path. -/
structure Regular (uri : String) : Prop where
  ne : uri ≠ fileScheme
  inside : ∀ c ∈ uri.toList, Url.endsRoute c = false
  last : ∀ c, (uri.toList.filter Url.isInner).getLast? = some c → Url.isOuter c = false

theorem hasScheme_concat {cs : List Char} (last : cs.getLast? ≠ some '/') : hasScheme (cs ++ ['/']) = hasScheme cs := by
  fun_induction hasScheme cs with
  | case1 rest => rfl
  | case2 c rest other ih =>
    have last' : rest.getLast? ≠ some '/' := by
      cases rest with
      | nil => simp
      | cons d more => rwa [List.getLast?_cons_cons] at last
    rw [List.cons_append, hasScheme, ih last']
    rintro more rfl same
    rcases rest with _ | ⟨d, _ | ⟨e, after⟩⟩
    · simp at same
    · obtain rfl := (List.cons.inj same).1
      exact last' rfl
    · simp only [List.cons_append, List.cons.injEq] at same
      exact other after rfl (by rw [same.1, same.2.1])
  | case3 => rfl

theorem hasScheme_of_startsWith {uri : String} (h : uri.startsWith fileScheme = true) : hasScheme uri.toList = true := by
  obtain ⟨rest, whole⟩ := String.startsWith_string_iff.mp h
  rw [← whole]
  rfl

theorem resolve_of_plain (s : Store) {uri : String} (ne : uri ≠ "") (noScheme : hasScheme uri.toList = false) :
    s.resolve uri = .ok (s.root.join (.ofText uri)) := by
  have noFile : uri.startsWith fileScheme = false := by
    rw [Bool.eq_false_iff]
    intro file
    rw [hasScheme_of_startsWith file] at noScheme
    exact absurd noScheme (by decide)
  unfold resolve
  rw [String.isEmpty_eq_false_iff.mpr ne, noFile, noScheme]
  rfl

theorem resolve_of_file (s : Store) {uri : String} {rest : List Char} (file : uri.startsWith fileScheme = true)
    (begins : Url.cleaned uri.toList = "file://".toList ++ rest) (p : Path) :
    s.resolve uri = .ok p ↔
      ∃ segments, Url.fileOf (rest.takeWhile (! Url.endsRoute ·)) = .ok (none, .segments segments) ∧
        p = Url.pathOf segments := by
  have scheme : Url.takeScheme? (Url.cleaned uri.toList) = some ("file".toList, '/' :: '/' :: rest) := by
    rw [begins]
    rfl
  have some' : uri.isEmpty = false := String.isEmpty_eq_false_iff.mpr (ne_empty_of_startsWith file)
  obtain ⟨query, fragment, read⟩ := Url.ofChars_of_file scheme
  unfold resolve
  rw [some', file, Url.ofText, read]
  simp only [Bool.false_eq_true, if_false, if_true]
  cases Url.fileOf (rest.takeWhile (! Url.endsRoute ·)) with
  | error e => simp [Except.map]
  | ok found =>
    obtain ⟨host, route⟩ := found
    cases host with
    | some host => simp [Except.map, Url.filePath?]
    | none =>
      cases route with
      | plain text => simp [Except.map, Url.filePath?]
      | segments list =>
        constructor
        · intro h
          exact ⟨list, rfl, (Except.ok.inj h).symm⟩
        · rintro ⟨_, same, rfl⟩
          obtain rfl := Url.Route.segments.inj (Prod.mk.inj (Except.ok.inj same)).2
          rfl

theorem exists_join (p q : Path) :
    ∃ before, ∀ r : Path, r.isAbsolute = q.isAbsolute → p.join r = ⟨before ++ r.bytes⟩ := by
  unfold Path.join
  by_cases alone : q.isAbsolute ∨ p.bytes = []
  · exact ⟨[], fun r same => by rw [same, if_pos alone, List.nil_append]⟩
  · by_cases slashed : p.bytes.getLast? = some slash
    · exact ⟨p.bytes, fun r same => by rw [same, if_neg alone, if_pos slashed]⟩
    · refine ⟨p.bytes ++ [slash], fun r same => ?_⟩
      rw [same, if_neg alone, if_neg slashed, List.append_assoc]
      rfl

theorem resolve_joinUri_of_plain (s : Store) {uri : String} (ne : uri ≠ "") (noScheme : hasScheme uri.toList = false) :
    ∃ q, s.resolve (joinUri uri fileName) = .ok q ∧ (s.root.join (.ofText uri)).Inside q (Text.utf8 fileName) := by
  obtain ⟨front, ending, joined⟩ := toList_joinUri ne fileName
  have noScheme' : hasScheme (joinUri uri fileName).toList = false := by
    have slashed : hasScheme (front ++ ['/']) = false := by
      rcases ending with ⟨same, last⟩ | same
      · rw [hasScheme_concat last, ← same, noScheme]
      · rw [← same, noScheme]
    rw [joined, ← List.singleton_append, ← List.append_assoc, hasScheme_append _ (by decide) (by decide), slashed]
  have ne' : joinUri uri fileName ≠ "" := by
    intro empty
    rw [empty] at joined
    simp at joined
  refine ⟨_, s.resolve_of_plain ne' noScheme', ?_⟩
  obtain ⟨before, join⟩ := exists_join s.root (.ofText uri)
  have bytes : (Path.ofText (joinUri uri fileName)).bytes = Text.encode front ++ slash :: Text.utf8 fileName := by
    rw [Path.ofText, Text.utf8_eq_encode, joined, Text.encode_append, Text.utf8_eq_encode fileName]
    rfl
  have outer : (Path.ofText uri).bytes = Text.encode front ∧ Text.encode front ≠ [] ∨
      (Path.ofText uri).bytes = Text.encode front ++ [slash] := by
    rw [Path.ofText, Text.utf8_eq_encode]
    rcases ending with ⟨same, -⟩ | same
    · refine .inl ⟨by rw [same], fun nothing => ne (Text.utf8_inj ?_)⟩
      rw [Text.utf8_eq_encode, Text.utf8_eq_encode, same, nothing]
      rfl
    · right
      rw [same, Text.encode_append]
      rfl
  have absolute : (Path.ofText (joinUri uri fileName)).isAbsolute = (Path.ofText uri).isAbsolute := by
    unfold Path.isAbsolute
    rw [bytes]
    rcases outer with ⟨same, some'⟩ | same
    · rw [same, List.head?_append_of_ne_nil _ some']
    · rw [same]
      cases Text.encode front <;> rfl
  rw [join _ rfl, join _ absolute, bytes, ← List.append_assoc]
  refine Path.inside_of_bytes Boosting.Materializer.segment_fileName ?_
  rcases outer with ⟨same, some'⟩ | same
  · exact .inl ⟨by rw [same], by simp [some']⟩
  · exact .inr (by rw [same, List.append_assoc])

theorem begun_of_file (cs : List Char) :
    Url.begun ("file://".toList ++ cs) = "file://".toList ++ cs.filter Url.isInner := rfl

theorem resolve_joinUri_of_file (s : Store) {uri : String} (file : uri.startsWith fileScheme = true) (regular : Regular uri)
    {p : Path} (h : s.resolve uri = .ok p) :
    ∃ q, s.resolve (joinUri uri fileName) = .ok q ∧ p.Inside q (Text.utf8 fileName) := by
  obtain ⟨rest, whole⟩ := String.startsWith_string_iff.mp file
  obtain ⟨front, ending, joined⟩ := toList_joinUri (ne_empty_of_startsWith file) fileName
  -- The slash that the URI may end in is none of those that belong to its scheme.
  obtain ⟨path, rfl, parts⟩ : ∃ path, front = fileScheme.toList ++ path ∧ (rest = path ∨ rest = path ++ ['/']) := by
    rcases ending with ⟨same, -⟩ | same
    · exact ⟨rest, same.symm.trans whole.symm, .inl rfl⟩
    · rw [← whole] at same
      obtain rfl | ⟨path, c, rfl⟩ := List.eq_nil_or_concat rest
      · exact absurd (String.toList_inj.mp (whole.symm.trans (List.append_nil _))) regular.ne
      · rw [List.concat_eq_append, ← List.append_assoc] at same
        obtain ⟨before, last⟩ := List.append_inj' same rfl
        exact ⟨path, before.symm, .inr (by rw [List.concat_eq_append, last])⟩
  have read : Url.cleaned uri.toList = "file://".toList ++ rest.filter Url.isInner := by
    have last := regular.last
    rw [← whole, List.filter_append] at last
    rw [← whole, Url.cleaned_of_last (begun_of_file rest ▸ last)]
    exact begun_of_file rest
  have read' : Url.cleaned (joinUri uri fileName).toList =
      "file://".toList ++ (path.filter Url.isInner ++ '/' :: fileName.toList) := by
    have name : Url.cleaned ('/' :: fileName.toList) = '/' :: fileName.toList := by decide
    rw [joined, Url.cleaned_append _ _ rfl, name, ← List.append_assoc, ← begun_of_file]
    rfl
  have whole' : ∀ cs : List Char, (∀ c ∈ cs, Url.endsRoute c = false) → cs.takeWhile (! Url.endsRoute ·) = cs := fun cs h =>
    List.takeWhile_eq_self_iff.mpr (by simpa using h)
  have inside : ∀ c ∈ rest.filter Url.isInner, Url.endsRoute c = false := fun c mem =>
    regular.inside c (whole ▸ List.mem_append_right _ (List.mem_filter.mp mem).1)
  have ending' : rest.filter Url.isInner = path.filter Url.isInner ∨
      rest.filter Url.isInner = path.filter Url.isInner ++ ['/'] := by
    rcases parts with rfl | rfl
    · exact .inl rfl
    · exact .inr (List.filter_append _ _)
  have noMark : ('/' :: fileName.toList).all (! Url.endsRoute ·) = true := by decide
  obtain ⟨segments, found, rfl⟩ := (s.resolve_of_file file read p).mp h
  rw [whole' _ inside] at found
  obtain ⟨inner, found', holding⟩ := Url.fileOf_name ending' found
  refine ⟨Url.pathOf inner, (s.resolve_of_file (startsWith_joinUri file fileName) read' _).mpr ⟨inner, ?_, rfl⟩, Url.inside_of_holding holding⟩
  rw [whole' _ ?_, found']
  intro c mem
  rcases List.mem_append.mp mem with mem | mem
  · refine inside c ?_
    rcases ending' with same | same
    · rwa [same]
    · rw [same]
      exact List.mem_append_left _ mem
  · simpa using List.all_eq_true.mp noMark c mem

theorem resolve_joinUri_of_tail (s : Store) {uri : String} (file : uri.startsWith fileScheme = true)
    (tail : ∃ c ∈ uri.toList, Url.endsRoute c = true) {p : Path} (h : s.resolve uri = .ok p) :
    s.resolve (joinUri uri fileName) = .ok p := by
  obtain ⟨rest, whole⟩ := String.startsWith_string_iff.mp file
  obtain ⟨path, d, after, rfl, inside, ends⟩ : ∃ path d after, rest = path ++ d :: after ∧
      (∀ c ∈ path, Url.endsRoute c = false) ∧ Url.endsRoute d = true := by
    obtain ⟨c, mem, ends⟩ := tail
    have there : c ∈ rest := by
      rw [← whole] at mem
      refine (List.mem_append.mp mem).resolve_left fun mem => ?_
      have noMark : fileScheme.toList.all (! Url.endsRoute ·) = true := by decide
      simpa [ends] using List.all_eq_true.mp noMark c mem
    cases marked : rest.dropWhile (! Url.endsRoute ·) with
    | nil => simpa [ends] using List.dropWhile_eq_nil_iff.mp marked c there
    | cons d after =>
      refine ⟨rest.takeWhile (! Url.endsRoute ·), d, after, ?_, fun c mem => ?_, ?_⟩
      · rw [← marked, List.takeWhile_append_dropWhile]
      · simpa using List.mem_takeWhile_imp mem
      · simpa [marked] using List.head?_dropWhile_not (! Url.endsRoute ·) rest
  obtain ⟨more, joined⟩ := prefix_joinUri (ne_empty_of_startsWith file) fileName
  have mark : Url.isOuter d = false ∧ Url.isInner d = true := by
    simp only [Url.endsRoute, Bool.or_eq_true, beq_iff_eq] at ends
    rcases ends with rfl | rfl <;> decide
  have read : ∀ es, ∃ tail, Url.cleaned (fileScheme.toList ++ (path ++ d :: es)) =
      "file://".toList ++ (path.filter Url.isInner ++ d :: tail) := by
    intro es
    obtain ⟨tail, left⟩ := Url.cleaned_cons es mark.1 mark.2
    refine ⟨tail, ?_⟩
    rw [← List.append_assoc, Url.cleaned_append _ _ mark.1, left, ← List.append_assoc, ← begun_of_file]
    rfl
  have route : ∀ tail, (path.filter Url.isInner ++ d :: tail).takeWhile (! Url.endsRoute ·) = path.filter Url.isInner := by
    intro tail
    rw [List.takeWhile_append_of_pos, List.takeWhile_cons_of_neg (by simp [ends]), List.append_nil]
    simpa using fun c mem _ => inside c mem
  obtain ⟨tail, begins⟩ := read after
  obtain ⟨tail', begins'⟩ := read (after ++ more)
  rw [whole] at begins
  rw [← List.cons_append, ← List.append_assoc, ← List.append_assoc, List.append_assoc fileScheme.toList, whole,
    joined] at begins'
  rw [s.resolve_of_file file begins, route] at h
  rwa [s.resolve_of_file (startsWith_joinUri file fileName) begins', route]

/-- **A name goes into the directory of a URI**, if the URI is plain or its text ends in what belongs to its path. After
a query or a fragment the name changes nothing, and after the bare scheme it is no name. -/
theorem resolve_joinUri (s : Store) {uri : String} {p : Path} (h : s.resolve uri = .ok p) :
    ((uri.startsWith fileScheme = true → Regular uri) →
        ∃ q, s.resolve (joinUri uri fileName) = .ok q ∧ p.Inside q (Text.utf8 fileName)) ∧
      (uri.startsWith fileScheme = true → (∃ c ∈ uri.toList, Url.endsRoute c = true) →
        s.resolve (joinUri uri fileName) = .ok p) ∧
      (uri = fileScheme → ∃ e, s.resolve (joinUri uri fileName) = .error e) := by
  refine ⟨fun regular => ?_, fun file tail => s.resolve_joinUri_of_tail file tail h, ?_⟩
  · by_cases file : uri.startsWith fileScheme = true
    · exact s.resolve_joinUri_of_file file (regular file) h
    · have plain := h
      unfold resolve at plain
      split at plain
      · injection plain
      · next some' =>
        split at plain
        · injection plain
        · next noScheme =>
          obtain rfl := Except.ok.inj plain
          refine s.resolve_joinUri_of_plain ?_ (by simpa using noScheme)
          rintro rfl
          exact some' rfl
  · rintro rfl
    have joined : joinUri fileScheme fileName = "file://model.json" := by
      rw [joinUri_eq]
      decide
    have read : Url.ofText "file://model.json" =
        .ok ⟨"file".toList, none, some (.domain fileName.toList), none, .segments [[]], none, none⟩ := by
      decide +kernel
    refine ⟨.invalidLocation "file://model.json", ?_⟩
    rw [joined, resolve, read, if_neg (by decide), if_pos (String.startsWith_string_iff.mpr (by decide))]
    rfl

/-- A store whose root is `/store`. -/
def rooted : Store := ⟨.ofText "/store"⟩

theorem resolve_of_url {uri : String} {u : Url} {p : Path} (file : uri.startsWith fileScheme = true)
    (read : Url.ofText uri = .ok u) (path : u.filePath? = some p) (s : Store) : s.resolve uri = .ok p := by
  have some' : uri.isEmpty = false := String.isEmpty_eq_false_iff.mpr (ne_empty_of_startsWith file)
  rw [resolve, some', file, read]
  simp [path]

theorem resolve_joinUri_escaped :
    rooted.resolve "file:///m%20x/../y/" = .ok (.ofText "/y/") ∧
      ∃ q, rooted.resolve (joinUri "file:///m%20x/../y/" fileName) = .ok q ∧
        (Path.ofText "/y/").Inside q (Text.utf8 fileName) := by
  have read : Url.ofText "file:///m%20x/../y/" =
      .ok ⟨"file".toList, none, none, none, .segments [['y'], []], none, none⟩ := by
    decide +kernel
  have resolved : rooted.resolve "file:///m%20x/../y/" = .ok (.ofText "/y/") :=
    resolve_of_url (String.startsWith_string_iff.mpr (by decide)) read (by decide +kernel) rooted
  have noMark : "file:///m%20x/../y/".toList.all (! Url.endsRoute ·) = true := by decide
  have regular : Regular "file:///m%20x/../y/" := by
    refine ⟨by decide, by simpa using noMark, ?_⟩
    rintro _ ⟨⟩
    decide
  exact ⟨resolved, (rooted.resolve_joinUri resolved).1 fun _ => regular⟩

theorem resolve_joinUri_query :
    rooted.resolve "file:///m?v=1" = .ok (.ofText "/m") ∧
      rooted.resolve (joinUri "file:///m?v=1" fileName) = .ok (.ofText "/m") := by
  have joined : joinUri "file:///m?v=1" fileName = "file:///m?v=1/model.json" := by
    rw [joinUri_eq]
    decide
  have read : Url.ofText "file:///m?v=1" =
      .ok ⟨"file".toList, none, none, none, .segments [['m']], some "v=1".toList, none⟩ := by
    decide +kernel
  have read' : Url.ofText "file:///m?v=1/model.json" =
      .ok ⟨"file".toList, none, none, none, .segments [['m']], some "v=1/model.json".toList, none⟩ := by
    decide +kernel
  rw [joined]
  exact ⟨resolve_of_url (String.startsWith_string_iff.mpr (by decide)) read (by decide +kernel) rooted,
    resolve_of_url (String.startsWith_string_iff.mpr (by decide)) read' (by decide +kernel) rooted⟩

end Artifact.Store

end ModelDepot
