import ModelDepot.Proofs.Deployment.Handles
import ModelDepot.Proofs.Deployment.Placing

/-! # The handles in a registry in memory

A registry in memory holds one artifact for every order that was kept, in the order of the orders. So the handles
that are found are those of the kept orders, as they were before their endpoints were started.
-/

namespace ModelDepot

open Artifact (Memory label)

namespace Deployment

variable {σ : Type}

namespace Order

/-! ## Orders that are kept -/

/-- An order is kept if it has credentials that the environment can hold and no order that was kept before has its
version. -/
def keepIn (kept : List (Order σ)) (o : Order σ) : List (Order σ) :=
  match o.settings.credentials with
  | .error _ => kept
  | .ok c => if c.exportable = false ∨ o.version ∈ kept.map version then kept else kept ++ [o]

def keptOf (orders : List (Order σ)) : List (Order σ) := orders.foldl keepIn []

theorem mem_of_mem_keepIn {kept : List (Order σ)} {o k : Order σ} (h : k ∈ keepIn kept o) : k ∈ kept ∨ k = o := by
  unfold keepIn at h
  split at h
  · exact .inl h
  split at h
  · exact .inl h
  · simpa using h

theorem mem_of_mem_keptOf {orders : List (Order σ)} {k : Order σ} (h : k ∈ keptOf orders) : k ∈ orders := by
  induction orders using List.reverseRecOn with
  | nil => simp [keptOf] at h
  | append_singleton before o ih =>
    rw [keptOf, List.foldl_append] at h
    obtain h | rfl := mem_of_mem_keepIn h
    · exact List.mem_append_left _ (ih h)
    · simp

/-! ## What the registry holds -/

def key (o : Order σ) : String := label Deployer.artifactName o.version

def entry (o : Order σ) : String × StoredArtifact := (o.key, o.logged)

def stock (kept : List (Order σ)) : Memory := ⟨kept.map entry⟩

theorem get?_stock_of_not_mem {kept : List (Order σ)} {version : String} (free : version ∉ kept.map Order.version) :
    (stock kept).get? (label Deployer.artifactName version) = none := by
  refine List.lookup_eq_none_iff.mpr fun e he => bne_iff_ne.mpr fun same => free ?_
  obtain ⟨k, hk, rfl⟩ := List.mem_map.mp he
  exact List.mem_map.mpr ⟨k, hk, (Memory.label_inj same).symm⟩

theorem get?_stock {kept : List (Order σ)} (distinct : (kept.map version).Nodup) {k : Order σ} (hk : k ∈ kept) :
    (stock kept).get? k.key = some k.entry.2 := by
  unfold stock Memory.get?
  induction kept with
  | nil => simp at hk
  | cons first rest ih =>
    obtain ⟨once, distinct⟩ := List.nodup_cons.mp distinct
    rw [List.map_cons, List.lookup_cons]
    obtain rfl | hk := List.mem_cons.mp hk
    · simp [entry]
    · have other : (k.key == first.entry.1) = false := by
        refine beq_eq_false_iff_ne.mpr fun same => once ?_
        rw [← Memory.label_inj same]
        exact List.mem_map_of_mem hk
      rw [other]
      exact ih distinct hk

theorem stock_concat {kept : List (Order σ)} {o : Order σ} (free : o.version ∉ kept.map version) :
    ((stock kept).add o.key o.unlogged).modify o.key (·.addMetadata [(Deployer.artifactName, o.payload)]) =
      stock (kept ++ [o]) := by
  have others : ∀ k ∈ kept, k.entry.1 ≠ o.key := fun k hk same =>
    free (Memory.label_inj same ▸ List.mem_map_of_mem hk)
  unfold Memory.modify Memory.add stock
  rw [List.map_append, List.map_append, List.map_map]
  refine congrArg Memory.mk (congrArg₂ (· ++ ·) ?_ ?_)
  · refine List.map_congr_left fun k hk => ?_
    simp only [Function.comp_apply, if_neg (others k hk)]
  · simp [entry, logged]

theorem keep_stock {kept : List (Order σ)} {o : Order σ} (free : o.version ∉ kept.map version)
    (platform : σ) (events : List Event) :
    o.keep .memory ((platform, stock kept), events) =
      (.ok (), ((platform, stock (kept ++ [o])), events ++ [.saved Deployer.artifactName o.version o.payload])) := by
  have require : Artifact.requireSegments Deployer.artifactName o.version = .ok () :=
    Deployer.requireSegments_versionOf o.model
  have absent : (stock kept).get? o.key = none := get?_stock_of_not_mem free
  have saved : Registry.memory.save Deployer.artifactName o.version o.payload .deployment o.moments.kept (stock kept) =
      (.ok o.unlogged.version, (stock kept).add o.key o.unlogged) := by
    simp only [Registry.memory, Memory.save, require]
    rw [show label Deployer.artifactName o.version = o.key from rfl, absent]
    rfl
  have there : (((stock kept).add o.key o.unlogged).get? o.key).isSome := by
    rw [Memory.get?_add _ _ _ _ absent, if_pos rfl]
    rfl
  have logged : Registry.memory.log Deployer.artifactName o.version [(Deployer.artifactName, o.payload)]
      ((stock kept).add o.key o.unlogged) = (.ok (), stock (kept ++ [o])) := by
    rw [← stock_concat free]
    exact if_pos there
  rw [keep_eq, saved]
  simp only [logged]

theorem keep_stock_taken {kept : List (Order σ)} {o : Order σ} (taken : o.version ∈ kept.map version)
    (distinct : (kept.map version).Nodup) (platform : σ) (events : List Event) :
    o.keep .memory ((platform, stock kept), events) =
      (.error (.alreadyExists (label Deployer.artifactName o.version)), ((platform, stock kept), events)) := by
  have require : Artifact.requireSegments Deployer.artifactName o.version = .ok () :=
    Deployer.requireSegments_versionOf o.model
  obtain ⟨k, hk, same⟩ := List.mem_map.mp taken
  have present : ((stock kept).get? (label Deployer.artifactName o.version)).isSome := by
    rw [← same, show label Deployer.artifactName k.version = k.key from rfl, get?_stock distinct hk]
    rfl
  have refused : Registry.memory.save Deployer.artifactName o.version o.payload .deployment o.moments.kept (stock kept) =
      (.error (.alreadyExists (label Deployer.artifactName o.version)), stock kept) := by
    simp only [Registry.memory, Memory.save, require, if_pos present]
  rw [keep_eq, refused]

end Order

/-! ## Runs -/

/-- A registry in memory holds the kept orders and nothing else, and the journal says so. -/
structure Listed (kept : List (Order σ)) (w : Surroundings ((σ × Memory) × List Event)) : Prop where
  registry : w.world.1.2 = Order.stock kept
  saved : savedOf w.journal = kept.map Order.saved
  distinct : (kept.map Order.version).Nodup

namespace Listed

variable {kept : List (Order σ)} {w : Surroundings ((σ × Memory) × List Event)}

theorem record (listed : Listed kept w) (o : Order σ) :
    Listed (Order.keepIn kept o) (o.record .memory w).surroundings := by
  obtain ⟨registry, saved, distinct⟩ := listed
  have world : w.world = ((w.world.1.1, Order.stock kept), w.world.2) := by rw [← registry]
  unfold Order.keepIn
  cases able : o.settings.credentials with
  | error e =>
    rw [Order.record_of_stuck (Deployer.enter_of_error (d := o.deployer .memory) able w.environment)]
    exact ⟨registry, saved, distinct⟩
  | ok c =>
    simp only
    by_cases unfit : c.exportable = false
    · obtain ⟨p, failed⟩ := Deployer.enter_of_not_exportable (d := o.deployer .memory) able unfit w.environment
      rw [if_pos (.inl unfit), Order.record_of_stuck failed]
      exact ⟨registry, saved, distinct⟩
    have entered : (o.deployer .memory).enter w.environment = (.ok c, .exporting c) :=
      Deployer.enter_of_exportable able (Bool.of_not_eq_false unfit) w.environment
    by_cases taken : o.version ∈ kept.map Order.version
    · rw [if_pos (.inr taken), Order.record_eq entered, world, Order.keep_stock_taken taken distinct]
      exact ⟨rfl, saved, distinct⟩
    rw [if_neg (not_or.mpr ⟨unfit, taken⟩)]
    obtain ⟨asked, -⟩ := Order.record_of_kept (w := w) able entered
      (by rw [world]; exact Order.keep_stock taken _ _)
    obtain ⟨requests, journal, -⟩ := asked.journal
    refine ⟨asked.registry, ?_, ?_⟩
    · rw [Surroundings.journal, journal, savedOf_append, savedOf_asked, savedOf_append, List.append_nil, List.map_append]
      exact congrArg₂ _ saved rfl
    · rw [List.map_append, List.map_singleton, ← List.concat_eq_append]
      exact distinct.concat taken

theorem recordAll {start : Surroundings ((σ × Memory) × List Event)} (listed : Listed [] start)
    (orders : List (Order σ)) : Listed (Order.keptOf orders) (Order.recordAll .memory orders start) := by
  induction orders using List.reverseRecOn with
  | nil => exact listed
  | append_singleton before o ih =>
    have step := ih.record o
    rwa [Order.recordAll, List.foldl_append, Order.keptOf, List.foldl_append]

end Listed

/-! ## Finding handles -/

theorem mapM_eq_ok {α β ε : Type} {f : α → Except ε β} {g : α → β} {xs : List α} (h : ∀ x ∈ xs, f x = .ok (g x)) :
    xs.mapM f = .ok (xs.map g) := by
  induction xs with
  | nil => rfl
  | cons x xs ih =>
    rw [List.mapM_cons, h x List.mem_cons_self, ih fun y hy => h y (List.mem_cons_of_mem x hy)]
    rfl

namespace Order

variable {kept : List (Order σ)} {settings : Settings} {api : Api σ} {clock : Clock} {platform : σ}

theorem find_stock (distinct : (kept.map version).Nodup) {k : Order σ} (hk : k ∈ kept) (made : k.config.Made)
    (dated : k.moments.made.OnCalendar) :
    (Deployer.between settings api .memory clock).find k.version (platform, stock kept) = .ok k.handle := by
  have loaded : (Deployer.between settings api .memory clock).registry.load Deployer.artifactName k.version
      (platform, stock kept) = .ok k.entry.2 := by
    simp only [Deployer.between, Registry.beside, Registry.memory, Memory.load]
    rw [show label Deployer.artifactName k.version = k.key from rfl, get?_stock distinct hk]
  have read : Service.decoder.ofJson? k.entry.2.payload = some k.handle :=
    Service.ofJson?_toJson (h := k.handle) (made.renamed _).imaged dated
  unfold Deployer.find
  simp only [loaded, read]

theorem versions_stock (later : kept.Pairwise fun a b => ¬ b.moments.kept.le a.moments.kept) :
    Memory.versions Deployer.artifactName (stock kept) = .ok (kept.map fun k => k.unlogged.version) := by
  have named : ((stock kept).artifacts.map (·.2.version)).filter (·.name == Deployer.artifactName) =
      kept.map fun k => k.unlogged.version := by
    rw [stock, List.map_map]
    refine (List.filter_eq_self.mpr fun v hv => ?_).trans rfl
    obtain ⟨k, -, rfl⟩ := List.mem_map.mp hv
    exact beq_self_eq_true _
  have ordered : (kept.map fun k => k.unlogged.version).Pairwise fun a b => a.createdAt.le b.createdAt := by
    rw [List.pairwise_map]
    exact later.imp fun {a b} notBefore => (Timestamp.le_total _ _).resolve_right notBefore
  rw [Memory.versions, named, Artifact.oldestFirst, List.mergeSort_of_pairwise ordered]

/-- **All that was kept is found, and nothing else**, whoever ordered what through a registry in memory that was empty,
with whatever answers. Listed are the handles of the orders whose artifacts were saved, oldest first, each as it was
before its endpoint was started; each is found under its version too. Keeping the journal that tells changes nothing
of what is done. -/
theorem findAll_lists (platform : σ) (environment : Environment) (orders : List (Order σ))
    (made : ∀ o ∈ orders, o.config.Made) (dated : ∀ o ∈ orders, o.moments.made.OnCalendar)
    (later : (keptOf orders).Pairwise fun a b => ¬ b.moments.kept.le a.moments.kept) :
    let start : Surroundings ((σ × Memory) × List Event) := ⟨((platform, .empty), []), environment⟩
    let w := recordAll .memory orders start
    w.bare = placeAll .memory orders start.bare ∧ savedOf w.journal = (keptOf orders).map saved ∧
      ∀ settings api clock, let d := Deployer.between settings api .memory clock
        d.findAll w.bare.world = .ok ((keptOf orders).map handle) ∧
          ∀ k ∈ keptOf orders, d.find k.version w.bare.world = .ok k.handle := by
  intro start w
  have begun : Listed ([] : List (Order σ)) start := ⟨rfl, rfl, List.nodup_nil⟩
  obtain ⟨registry, saved, distinct⟩ := begun.recordAll orders
  refine ⟨recordAll_bare .memory orders start, saved, fun settings api clock => ?_⟩
  have world : w.bare.world = (w.world.1.1, stock (keptOf orders)) := Prod.ext rfl registry
  have found : ∀ k ∈ keptOf orders,
      (Deployer.between settings api .memory clock).find k.version w.bare.world = .ok k.handle := by
    intro k hk
    rw [world]
    exact find_stock distinct hk (made k (mem_of_mem_keptOf hk)) (dated k (mem_of_mem_keptOf hk))
  refine ⟨?_, found⟩
  have versions : (Deployer.between settings api .memory clock).registry.versions Deployer.artifactName w.bare.world =
      .ok ((keptOf orders).map fun k => k.unlogged.version) := by
    rw [world]
    exact versions_stock later
  unfold Deployer.findAll
  simp only [versions, List.mapM_map]
  exact mapM_eq_ok found

/-- An order of another model, later than the first. -/
def second : Order Bool :=
  { first with model := ⟨List.replicate 32 ⟨1, by decide⟩, by decide⟩, moments := ⟨⟨0, 0⟩, ⟨1, 0⟩⟩ }

theorem keptOf_repeated : keptOf [first, first, second] = [first, second] := rfl

/-- The first order is repeated in vain. -/
theorem findAll_lists_repeated :
    let start : Surroundings ((Bool × Memory) × List Event) := ⟨((false, .empty), []), .cleared⟩
    let w := recordAll .memory [first, first, second] start
    w.bare = placeAll .memory [first, first, second] start.bare ∧ savedOf w.journal = [first.saved, second.saved] ∧
      ∀ settings api clock, let d := Deployer.between settings api .memory clock
        d.findAll w.bare.world = .ok [first.handle, second.handle] ∧
          ∀ k ∈ [first, second], d.find k.version w.bare.world = .ok k.handle := by
  have begun : Timestamp.OnCalendar ⟨0, 0⟩ := ⟨by decide, .inl (by decide)⟩
  have lists := findAll_lists false .cleared [first, first, second]
    (by simpa using ⟨.new _ _, .new _ _⟩) (by simpa using ⟨begun, begun⟩)
    (by rw [keptOf_repeated]; simp [first, second, Timestamp.le])
  rwa [keptOf_repeated] at lists

end Order

end Deployment

end ModelDepot
