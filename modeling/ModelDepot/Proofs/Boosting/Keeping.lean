import Mathlib
import ModelDepot.Proofs.Artifact.Copying
import ModelDepot.Proofs.Boosting.Documents
import ModelDepot.Proofs.Boosting.Staging
import ModelDepot.Proofs.Files.Straight

/-! # Boosters that are kept

A booster that was saved is at its URI as it was written, and loading it answers what its bytes spell: the booster
itself if it is sound and its split conditions are finite, and otherwise no booster at all.
-/

namespace ModelDepot

open Files (FileSystem Location Name Node Path Segment)
open Files.FileSystem (Furnished Stocked)
open Artifact (Store joinUri)

/-! ## Requests that succeed -/

namespace Artifact.Store

variable {fs fs' : FileSystem}

theorem copy_inside {s : Store} {source target : String} {here p : Path} {l k : Location} {m n : Name} {bytes : List UInt8}
    (resolved : s.resolve source = .ok here) (resolved' : s.resolve target = .ok ((p.child m).child n))
    (reaches : fs.Reaches here k) (file : fs.node? k = some (.file bytes)) (above : fs.Place p l m)
    (place : fs.Place (p.child m) (l ++ [m]) n) (free : fs.node? (l ++ [m] ++ [n]) = none) :
    ∃ fs', s.copy source target false fs = (.ok (), fs') ∧ fs'.read ((p.child m).child n) = .ok bytes := by
  have isFile : fs.isFile here = true := by rw [FileSystem.isFile, reaches.status file]
  have parent : ((p.child m).child n).parent? = some (p.child m) := Path.parent?_child_child p above.segment place.segment
  have there := above.makeDirectories place.directory
  obtain ⟨fs', copied, read⟩ := place.copy reaches file free
  refine ⟨fs', ?_, read⟩
  rw [copy, resolved, resolved']
  simp only [isFile, place.present_eq_false free, copyPath, parent, there, copied]
  rfl

end Artifact.Store

namespace Boosting.Materializer

variable {m : Materializer} {b : Booster} {uri : String} {fs fs' : FileSystem} {bytes : List UInt8}

theorem save_eq_ok (saved : m.save b uri fs = (.ok (), fs')) :
    ∃ file fs₁ fs₂, m.freshPath? fs ".json" = some file ∧ fs.write file [] = .ok fs₁ ∧
      m.deliver b uri file fs₁ = (.ok (), fs₂) ∧ fs' = cleared file fs₂ := by
  unfold save at saved
  cases fresh : m.freshPath? fs ".json" with
  | none => simp [fresh] at saved
  | some file =>
    cases written : fs.write file [] with
    | error e => simp [fresh, written] at saved
    | ok fs₁ =>
      simp only [fresh, written] at saved
      obtain ⟨delivered, rfl⟩ := Prod.mk.inj saved
      exact ⟨file, fs₁, _, rfl, written, Prod.ext delivered rfl, rfl⟩

theorem deliver_eq_ok {file : Path} (delivered : m.deliver b uri file fs = (.ok (), fs')) :
    ∃ fs₁ text, fs.write file b.toBytes = .ok fs₁ ∧ file.text? = some text ∧
      m.store.copy text (joinUri uri fileName) false fs₁ = (.ok (), fs') := by
  unfold deliver Booster.saveTo at delivered
  cases written : fs.write file b.toBytes with
  | error e => simp [written] at delivered
  | ok fs₁ =>
    cases spelled : file.text? with
    | none => simp [written, spelled] at delivered
    | some text =>
      refine ⟨fs₁, text, rfl, rfl, ?_⟩
      simp only [written, spelled] at delivered
      split at delivered
      · simp at delivered
      · next u fs₂ copied => exact copied.trans (by simpa using delivered)

/-! ## What saving keeps -/

/-- However files and directories are added, the path of the booster at a URI leads neither to an entry with the name of
a temporary file nor to something that does not keep what is written to it. -/
def Apart (m : Materializer) (uri : String) (fs : FileSystem) : Prop :=
  ∀ p, m.store.resolve (joinUri uri fileName) = .ok p → ∀ fs', Stocked fs fs' → ∀ spot, fs'.locate true p = .ok spot →
    (∀ n, spot.location.getLast? ≠ some (temporaryName ".json" n)) ∧ fs'.node? spot.location ≠ some .other

/-- Bytes are kept at a URI, and the staging directory is one that the store can be told of. -/
structure Kept (m : Materializer) (uri : String) (bytes : List UInt8) (fs : FileSystem) : Prop where
  sound : fs.Sound
  at' : ∃ p l, m.store.resolve (joinUri uri fileName) = .ok p ∧ fs.Reaches p l ∧ fs.node? l = some (.file bytes)
  staging : ∃ d, fs.Leads (m.stagingRoot fs) d ∧ fs.node? d = some .directory
  accepted : ∃ n text source, ((m.stagingRoot fs).child (temporaryName ".json" n)).text? = some text ∧
    m.store.resolve text = .ok source

/-- **What was saved is kept.** -/
theorem kept_of_save (sound : fs.Sound) (apart : m.Apart uri fs)
    (saved : m.save b uri fs = (.ok (), fs')) : m.Kept uri b.toBytes fs' := by
  obtain ⟨file, fs₁, fs₄, fresh, emptied, delivered, rfl⟩ := save_eq_ok saved
  obtain ⟨fs₂, text, written, spelled, copied⟩ := deliver_eq_ok delivered
  obtain ⟨source, p, accepted, resolved, -, copied⟩ := Store.copy_eq_ok copied
  obtain ⟨fs₃, furnished, soundly, copied, -⟩ := Store.copyPath_eq_ok copied
  obtain ⟨n, d, rfl, place, free⟩ := place_of_freshPath? (by decide) fresh
  obtain ⟨staged₁, stocked₁⟩ := place.staged sound (.inl free) emptied
  obtain ⟨staged₂, stocked₂⟩ := staged₁.place.staged staged₁.sound (.inr ⟨[], staged₁.file⟩) written
  have staged₃ := staged₂.furnished furnished (soundly staged₂.sound)
  have stocked₃ := (stocked₁.trans stocked₂).trans furnished.stocked
  obtain ⟨rfl, -⟩ := resolve_stagedPath m.store (m.isAbsolute_stagingRoot fs) spelled accepted 0
  -- The copy is at `l`, which is not where the temporary file is.
  have elsewhere : ∀ spot, fs₃.locate true p = .ok spot →
      spot.location ≠ d ++ [temporaryName ".json" n] ∧ fs₃.node? spot.location ≠ some .other := by
    intro spot found
    obtain ⟨off, kept⟩ := apart p resolved fs₃ stocked₃ spot found
    exact ⟨fun same => off n (by simp [same]), kept⟩
  obtain ⟨l, other, reaches, grown, sound₄, node⟩ :=
    Files.FileSystem.exists_of_copy staged₃.sound staged₃.reaches staged₃.file elsewhere copied
  have file : fs₄.node? (d ++ [temporaryName ".json" n]) = some (.file b.toBytes) := by
    rw [node, if_neg other.symm, staged₃.file]
  have place₄ := staged₃.place.grown grown
  have rest := fun k (ne : k ≠ d ++ [temporaryName ".json" n]) =>
    (Files.FileSystem.node?_erase sound₄ file k).trans (if_neg ne)
  have working : (fs₄.erase (d ++ [temporaryName ".json" n])).workingDirectory = fs.workingDirectory :=
    grown.workingDirectory.trans stocked₃.workingDirectory
  have off : d ≠ d ++ [temporaryName ".json" n] := by simp
  rw [cleared, place₄.remove file]
  refine ⟨sound₄.erase_file file, ⟨p, l, resolved, reaches.without file other rest rfl, ?_⟩, ⟨d, ?_, ?_⟩, ?_⟩
  · rw [rest l other, node, if_pos rfl]
  · rw [m.stagingRoot_congr working]
    exact place₄.leads.without file off rest rfl
  · rw [rest d off, place₄.directory]
  · rw [m.stagingRoot_congr working]
    exact ⟨n, text, _, spelled, accepted⟩

/-! ## What loading answers -/

/-- Every temporary directory that loading may use has a name and a path that can be looked up. -/
def Roomy (m : Materializer) (fs : FileSystem) : Prop :=
  ∀ n ≤ fs.entries.length,
    (temporaryName "" n).length ≤ Files.maxName ∧ (stagedPath (m.stagingRoot fs) n).fault? = none

theorem fetch_of_kept {d : Location} {n : Nat} (kept : m.Kept uri bytes fs)
    (place : fs.Place (m.stagingRoot fs) d (temporaryName "" n)) (free : fs.node? (d ++ [temporaryName "" n]) = none)
    (fine : (stagedPath (m.stagingRoot fs) n).fault? = none) :
    (m.fetch uri (stagedPath (m.stagingRoot fs) n) (fs.put (d ++ [temporaryName "" n]) .directory)).1 =
      (Booster.ofBytes bytes).mapError .booster := by
  obtain ⟨p, l, resolved, reaches, file⟩ := kept.at'
  obtain ⟨k, text, source, spelled, accepted⟩ := kept.accepted
  obtain ⟨-, text', spelled', accepted'⟩ :=
    resolve_stagedPath m.store (m.isAbsolute_stagingRoot fs) spelled accepted n
  have ne : d ++ [temporaryName "" n] ≠ [] := by simp
  have furnished := Files.FileSystem.furnished_put ne free
  obtain ⟨place', free'⟩ := place.inside kept.sound free segment_fileName (by rw [Text.utf8_eq_encode]; decide) fine
  have file' : (fs.put (d ++ [temporaryName "" n]) .directory).node? l = some (.file bytes) := by
    rw [fs.node?_put ne, if_neg, file]
    rintro rfl
    simp [free] at file
  obtain ⟨fs', copied, read⟩ := Store.copy_inside resolved accepted' (reaches.grown furnished.grown) file'
    (place.grown furnished.grown) place' free'
  rw [fetch, spelled']
  simp only [copied, Booster.loadFrom, stagedPath, read]
  cases Booster.ofBytes bytes <;> rfl

/-- **What is kept is what is loaded**, if its bytes spell a booster. -/
theorem load_of_kept (kept : m.Kept uri bytes fs) (roomy : m.Roomy fs) :
    (m.load uri fs).1 = (Booster.ofBytes bytes).mapError .booster := by
  obtain ⟨d, leads, directory⟩ := kept.staging
  have places : ∀ n ≤ fs.entries.length, fs.Place (m.stagingRoot fs) d (temporaryName "" n) := fun n le =>
    ⟨leads, directory, segment_temporaryName (by decide) n, (roomy n le).1,
      Path.fault?_of_child segment_fileName (roomy n le).2⟩
  obtain ⟨n, le, fresh, free⟩ := exists_freshPath? places
  have made := (places n le).makeDirectory free
  rw [load, fresh]
  simp only [made]
  exact fetch_of_kept kept (places n le) free (roomy n le).2

theorem ofBytes_of_unnamed (unnamed : b.Unnamed) (rereads : b.Rereads) (depth : b.toJson.depth ≤ Json.Document.maxDepth) :
    (b.Finite → Booster.ofBytes b.toBytes = b.validate.map fun _ => b) ∧
      (¬ b.Finite → Booster.ofBytes b.toBytes = .error .format) := by
  obtain ⟨read, unread⟩ := b.looseDecoder_toJson unnamed rereads (b.shallow_of_depth depth)
  have document : Booster.looseDecoder.ofBytes? b.toBytes = Booster.looseDecoder 127 b.toJson.spelled := by
    rw [Json.Decoder.ofBytes?, Booster.toBytes, (Json.ofBytes?_written b.toJson).1]
    rfl
  refine ⟨fun finite => ?_, fun infinite => ?_⟩
  · rw [Booster.ofBytes, document, read finite]
  · rw [Booster.ofBytes, document, unread infinite]

/-! ## An empty store -/

/-- Boosters are kept in the root and staged in `/s`. -/
def rooted : Materializer := ⟨⟨.root⟩, .ofText "/s"⟩

/-- Besides the staging directory, these entries are there. -/
def shelf (entries : List (Location × Node)) : FileSystem := ⟨([Text.utf8 "s"], .directory) :: entries, []⟩

/-- The place of the booster at `/m`. -/
def shelved (bytes : List UInt8) : List (Location × Node) :=
  [([Text.utf8 "m"], .directory), ([Text.utf8 "m", Text.utf8 fileName], .file bytes)]

/-- The place of the first temporary file. -/
def staged (bytes : List UInt8) : Location × Node := ([Text.utf8 "s", temporaryName ".json" 0], .file bytes)

theorem resolve_rooted (text : String) (absolute : text.toList.head? = some '/')
    (noScheme : Store.hasScheme text.toList = false) : rooted.store.resolve text = .ok (.ofText text) := by
  rw [Store.resolve_of_absolute _ absolute, noScheme]
  rfl

theorem save_shelf (b : Booster) : rooted.save b "/m" (shelf []) = (.ok (), shelf (shelved b.toBytes)) := by
  unfold save deliver Booster.saveTo
  generalize b.toBytes = bytes
  have fresh : rooted.freshPath? (shelf []) ".json" = some (.ofText "/s/zenml-temp-0.json") := by cbv
  have emptied : (shelf []).write (.ofText "/s/zenml-temp-0.json") [] = .ok (shelf [staged []]) := by cbv
  have written : (shelf [staged []]).write (.ofText "/s/zenml-temp-0.json") bytes = .ok (shelf [staged bytes]) := by cbv
  have spelled : (Path.ofText "/s/zenml-temp-0.json").text? = some "/s/zenml-temp-0.json" := Text.ofUtf8?_utf8 _
  have uri : joinUri "/m" fileName = "/m/model.json" := by cbv
  have copied : rooted.store.copy "/s/zenml-temp-0.json" "/m/model.json" false (shelf [staged bytes]) =
      (.ok (), shelf (staged bytes :: shelved bytes)) := by
    rw [Store.copy, resolve_rooted _ (by decide) (by decide), resolve_rooted _ (by decide) (by decide)]
    cbv
  simp only [fresh, emptied, written, spelled, uri, copied]
  cbv

theorem sound_shelf : (shelf []).Sound := by
  refine Files.FileSystem.sound_of_entries ?_ (by simp [shelf]) ?_
  · simp only [shelf, List.mem_singleton, forall_eq]
    rw [Text.utf8_eq_encode]
    decide
  · simp only [shelf, List.mem_singleton, forall_eq]
    cbv

theorem directory_of_shelf {l : Location} {n : Node} (node : (shelf []).node? l = some n) : n = .directory := by
  obtain rfl | mem := Files.FileSystem.eq_directory_or_mem node
  · rfl
  · simp only [shelf, List.mem_singleton, Prod.mk.injEq] at mem
    exact mem.2

theorem apart_shelf : rooted.Apart "/m" (shelf []) := by
  intro p resolved fs' stocked spot found
  refine ⟨fun n same => ?_, fun other => by simpa using directory_of_shelf (stocked.kept _ other)⟩
  have uri : joinUri "/m" fileName = "/m/model.json" := by cbv
  rw [uri, resolve_rooted _ (by decide) (by decide)] at resolved
  obtain rfl := Except.ok.inj resolved
  have path : Path.ofText "/m/model.json" = Location.path [Text.utf8 "m", Text.utf8 "model.json"] := by cbv
  have proper : Location.Proper [Text.utf8 "m", Text.utf8 "model.json"] := by
    intro name mem
    simp only [List.mem_cons, List.not_mem_nil, or_false] at mem
    obtain rfl | rfl := mem <;>
      · rw [Text.utf8_eq_encode]
        decide
  have noLinks : ∀ k n, fs'.node? k = some n → ¬ n.IsLink := fun k =>
    stocked.notLink fun n node => by simp [directory_of_shelf node, Node.IsLink]
  rw [path] at found
  rw [Files.FileSystem.location_of_locate proper (fun k n _ => noLinks k n) found] at same
  obtain ⟨rest, begins⟩ := exists_temporaryText ".json" n
  rw [← Text.utf8_inj (Option.some.inj same)] at begins
  simp at begins

theorem roomy_shelf (bytes : List UInt8) : rooted.Roomy (shelf (shelved bytes)) := by
  intro n le
  obtain rfl | rfl | rfl | rfl : n = 0 ∨ n = 1 ∨ n = 2 ∨ n = 3 := by
    simp only [shelf, shelved, List.length_cons, List.length_nil] at le
    omega
  all_goals cbv

/-- A booster of one stump. -/
def stump : Booster := (Booster.new "reg:squarederror" 0.5 2).push (.stump 1 0.5 1 (-1) true)

/-- A booster of one leaf that is infinite. -/
def endless : Booster := (Booster.new "reg:squarederror" 0.5 1).push (.leaf (1 / 0))

theorem made_endless : endless.Made := .pushLeaf _ (.new _ _ _) _

theorem infinite_endless : ¬ endless.Finite := by
  intro finite
  have := finite (.leaf (1 / 0)) (by simp [endless, Booster.push]) (1 / 0) (by simp [Tree.leaf])
  revert this
  decide +kernel

theorem rereads_push (objective : String) (baseScore : Float32) (features : Nat) {t : Tree} (others : t.others = [])
    (conditions : ∀ c ∈ t.splitConditions, c.isFinite → SingleRereads c) :
    ((Booster.new objective baseScore features).push t).Rereads where
  learner := .nil
  parameters := .nil
  objective := .nil
  ensemble := .nil
  model := .nil
  trees := by
    intro u mem
    obtain rfl : u = t := by simpa [Booster.push, Booster.new] using mem
    exact ⟨others ▸ .nil, conditions⟩

theorem stump_rereads : stump.Rereads := by
  have conditions : SingleRereads 0.5 ∧ SingleRereads 1 ∧ SingleRereads (-1) :=
    ⟨⟨0.5, Json.Number.spelled_of_toNumber? _ _ (by decide +kernel), by decide +kernel⟩,
      ⟨1, Json.Number.spelled_of_toNumber? _ _ (by decide +kernel), by decide +kernel⟩,
      ⟨-1, Json.Number.spelled_of_toNumber? _ _ (by decide +kernel), by decide +kernel⟩⟩
  refine rereads_push _ _ _ rfl ?_
  simpa [Tree.stump] using ⟨fun _ => conditions.1, fun _ => conditions.2.1, fun _ => conditions.2.2⟩

theorem endless_rereads : endless.Rereads := by
  refine rereads_push _ _ _ rfl ?_
  simp only [Tree.leaf, List.mem_toArray, List.mem_singleton, forall_eq]
  intro finite
  exact absurd finite (by decide +kernel)

/-! ## Saving and loading -/

/-- **What was saved is loaded if it is sound and finite.** Saving checks neither, so that loading refuses a saved
booster with an unsound tree and cannot read one with a split condition that is not finite. -/
theorem load_of_save (unnamed : b.Unnamed) (rereads : b.Rereads) (depth : b.toJson.depth ≤ Json.Document.maxDepth)
    (sound : fs.Sound) (apart : m.Apart uri fs) (saved : m.save b uri fs = (.ok (), fs'))
    (roomy : m.Roomy fs') :
    (b.validate = .ok () → b.Finite → (m.load uri fs').1 = .ok b) ∧
      (∀ e, b.validate = .error e → b.Finite → (m.load uri fs').1 = .error (.booster e)) ∧
      (¬ b.Finite → (m.load uri fs').1 = .error (.booster .format)) := by
  have loaded := load_of_kept (kept_of_save sound apart saved) roomy
  obtain ⟨read, unread⟩ := ofBytes_of_unnamed unnamed rereads depth
  refine ⟨fun valid finite => ?_, fun e invalid finite => ?_, fun infinite => ?_⟩
  · rw [loaded, read finite, valid]
    rfl
  · rw [loaded, read finite, invalid]
    rfl
  · rw [loaded, unread infinite]
    rfl

/-- The booster of one stump, saved in an empty store, is loaded. -/
theorem load_of_save_stump : (rooted.load "/m" (shelf (shelved stump.toBytes))).1 = .ok stump := by
  have made : stump.Made := .pushStump _ (.new _ _ _) _ _ _ _ _
  have finite : stump.Finite := by
    simp only [Booster.Finite, stump, Booster.push, Booster.new, List.nil_append, List.mem_singleton, forall_eq,
      Tree.Finite, Tree.stump]
    decide +kernel
  exact (load_of_save made.unnamed stump_rereads (by decide) sound_shelf apart_shelf (save_shelf stump)
    (roomy_shelf _)).1 (by decide) finite

/-- **An infinite leaf is saved, and cannot be loaded.** -/
theorem save_loses_infinite :
    endless.Made ∧ rooted.save endless "/m" (shelf []) = (.ok (), shelf (shelved endless.toBytes)) ∧
      (rooted.load "/m" (shelf (shelved endless.toBytes))).1 = .error (.booster .format) := by
  have kept := kept_of_save sound_shelf apart_shelf (save_shelf endless)
  refine ⟨made_endless, save_shelf endless, ?_⟩
  rw [load_of_kept kept (roomy_shelf _), (ofBytes_of_unnamed made_endless.unnamed endless_rereads (by decide)).2 infinite_endless]
  rfl

end Boosting.Materializer

end ModelDepot
