import ModelDepot.Artifact.Memory
import ModelDepot.Proofs.Artifact.Histories

/-! # The registry in memory goes by labels

Two names and versions with one label are one artifact to the registry in memory. As long as that does
not happen it keeps an artifact for each name and version.
-/

namespace ModelDepot

namespace Artifact

/-! ## Labels -/

theorem takeWhile_label {name : String} (plain : '@' ∉ name.toList) (version : String) :
    (label name version).toList.takeWhile (· ≠ '@') = name.toList := by
  have all : ∀ c ∈ name.toList, decide (c ≠ '@') = true := by
    intro c mem
    exact decide_eq_true fun same => plain (same ▸ mem)
  rw [label, String.toList_append, String.toList_append, List.append_assoc, List.takeWhile_append_of_pos all]
  simp

/-- Names without `@` are told apart, and so are their versions. -/
theorem pair_of_label {c d : Call} (hc : '@' ∉ c.name.toList) (hd : '@' ∉ d.name.toList)
    (same : c.label = d.label) : c.pair = d.pair := by
  have names : c.name = d.name := by
    have := congrArg (fun s : String => s.toList.takeWhile (· ≠ '@')) same
    simp only [Call.label] at this
    rw [takeWhile_label hc, takeWhile_label hd] at this
    exact String.toList_inj.mp this
  have rest := congrArg String.toList same
  simp only [Call.label, label, String.toList_append, names] at rest
  rw [Call.pair, Call.pair, names, String.toList_inj.mp (List.append_cancel_left rest)]

/-! ## One call -/

namespace Memory

variable (m : Memory) (key k : String) (a : StoredArtifact)

theorem get?_add (absent : m.get? key = none) :
    (m.add key a).get? k = if k = key then some a else m.get? k := by
  unfold get? add at *
  rw [List.lookup_append]
  by_cases asked : k = key
  · subst asked
    simp [absent]
  · simp [asked, List.lookup_cons, beq_eq_false_iff_ne.mpr asked]

theorem get?_modify (f : StoredArtifact → StoredArtifact) :
    (m.modify key f).get? k = if k = key then (m.get? k).map f else m.get? k := by
  unfold get? modify
  induction m.artifacts with
  | nil => simp
  | cons e rest ih =>
    obtain ⟨l, b⟩ := e
    rw [List.map_cons, List.lookup_cons, List.lookup_cons]
    cases asked : k == l with
    | true =>
      obtain rfl := beq_iff_eq.mp asked
      by_cases here : k = key <;> simp [here]
    | false => exact ih

theorem ask_answer (c : Call) (accepted : requireSegments c.name c.version = .ok ()) :
    (Registry.memory.ask c m).1 = c.answer none (m.get? c.label) := by
  obtain ⟨name, version, request⟩ := c
  have label : Call.label ⟨name, version, request⟩ = Artifact.label name version := rfl
  rw [label]
  cases held : m.get? (Artifact.label name version) <;> cases request <;>
    simp [Registry.ask, Registry.metadata, Registry.memory, save, log, load, accepted, held, Call.answer, label,
      Except.map]

theorem get?_ask (c : Call) (accepted : requireSegments c.name c.version = .ok ()) :
    (Registry.memory.ask c m).2.get? k = if k = c.label then c.update (m.get? k) else m.get? k := by
  obtain ⟨name, version, request⟩ := c
  have label : Call.label ⟨name, version, request⟩ = Artifact.label name version := rfl
  rw [label]
  cases request with
  | save payload options now =>
    simp only [Registry.ask, Registry.memory, save, accepted]
    cases held : m.get? (Artifact.label name version) with
    | none =>
      rw [if_neg (by simp), get?_add _ _ _ _ held]
      by_cases here : k = Artifact.label name version <;> simp [here, held, Call.update]
    | some a =>
      by_cases here : k = Artifact.label name version <;> simp [here, held, Call.update]
  | log ms =>
    simp only [Registry.ask, Registry.memory, log]
    cases held : m.get? (Artifact.label name version) with
    | none =>
      by_cases here : k = Artifact.label name version <;> simp [here, held, Call.update]
    | some a =>
      rw [if_pos (by simp), get?_modify]
      by_cases here : k = Artifact.label name version <;> simp [here, held, Call.update]
  | load => simp [Registry.ask, Call.update]
  | metadata => simp [Registry.ask, Call.update]

/-! ## Any number of calls -/

theorem get?_after (calls : List Call) (accepted : ∀ c ∈ calls, requireSegments c.name c.version = .ok ()) (k : String) :
    (Registry.memory.after .empty calls).get? k = kept? (calls.filter (·.label = k)) := by
  induction calls using List.reverseRecOn with
  | nil => rfl
  | append_singleton calls c ih =>
    have before := ih fun d mem => accepted d (by simp [mem])
    rw [Registry.after_concat, get?_ask _ _ c (accepted c (by simp)), before, List.filter_append]
    by_cases here : k = c.label
    · simp [here, kept?_concat]
    · simp [here, Ne.symm here]

end Memory

end Artifact

open Artifact (Call kept? requireSegments)

/-- **The registry in memory keeps an artifact for every label.** If no other name and version with the label
was used before, that is an artifact for every name and version. -/
theorem Registry.memory_answers (before : List Call) (next : Call)
    (accepted : ∀ c ∈ next :: before, requireSegments c.name c.version = .ok ()) :
    let answer := (Registry.memory.ask next (Registry.memory.after .empty before)).1
    answer = next.answer none (kept? (before.filter (·.label = next.label))) ∧
      ((∀ c ∈ before, c.label = next.label → c.pair = next.pair) →
        answer = next.answer none (kept? (before.filter (·.pair = next.pair)))) := by
  intro answer
  have byLabel : answer = next.answer none (kept? (before.filter (·.label = next.label))) := by
    have same := Artifact.Memory.ask_answer (Registry.memory.after .empty before) next (accepted next (by simp))
    rwa [Artifact.Memory.get?_after before fun c mem => accepted c (by simp [mem])] at same
  refine ⟨byLabel, fun apart => ?_⟩
  have filters : before.filter (·.label = next.label) = before.filter (·.pair = next.pair) := by
    refine List.filter_congr fun c mem => decide_eq_decide.mpr ⟨apart c mem, fun same => ?_⟩
    obtain ⟨name, version⟩ := Prod.mk.inj same
    rw [Call.label, Call.label, name, version]
  rw [byLabel, filters]

/-- Two versions of a name, the first of them with metadata. -/
def Registry.twoVersions : List Call := [
  ⟨"svc", "v1", .save .null .deployment ⟨0, 0⟩⟩,
  ⟨"svc", "v2", .save (.bool true) .default ⟨1, 0⟩⟩,
  ⟨"svc", "v1", .log [("first", .ofNat 1)]⟩,
  ⟨"svc", "v1", .log [("first", .ofNat 2)]⟩]

theorem Registry.memory_answers_twoVersions :
    (Registry.memory.ask ⟨"svc", "v1", .load⟩ (Registry.memory.after .empty Registry.twoVersions)).1 =
      .ok (.artifact ⟨.new "svc" "v1" .deployment ⟨0, 0⟩, .null, [("first", .ofNat 2)]⟩) :=
  (Registry.memory_answers Registry.twoVersions ⟨"svc", "v1", .load⟩ (by decide)).2 fun c mem =>
    Artifact.pair_of_label ((by decide : ∀ c ∈ Registry.twoVersions, '@' ∉ c.name.toList) c mem) (by decide)

/-- An artifact that was never saved cannot be saved, because another one has its label. -/
theorem Registry.memory_refuses_new :
    (Registry.memory.ask ⟨"a", "b@c", .save .null .default ⟨0, 0⟩⟩
      (Registry.memory.after .empty [⟨"a@b", "c", .save .null .default ⟨0, 0⟩⟩])).1 =
        .error (.alreadyExists "a@b@c") ∧
      Call.answer ⟨"a", "b@c", .save .null .default ⟨0, 0⟩⟩ none
        (kept? ([⟨"a@b", "c", .save .null .default ⟨0, 0⟩⟩].filter (·.pair = ("a", "b@c")))) =
        .ok (.version (.new "a" "b@c" .default ⟨0, 0⟩)) := by
  constructor <;> rfl

end ModelDepot
