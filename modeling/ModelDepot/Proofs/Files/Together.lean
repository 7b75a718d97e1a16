import ModelDepot.Proofs.Files.Changes

/-! # Two programs that share a file

Two programs take their steps in any order. If each of them looks at one file and then writes it as a whole, they
end as if one had run after the other. Otherwise both have looked before either of them wrote, and what the first
of them wrote is lost.
-/

namespace ModelDepot

namespace Files

namespace Program

variable {α β : Type}

/-! ## Taking turns -/

/-- The first program alone, and then the second. -/
def inTurn (p : Program α) (q : Program β) (fs : FileSystem) : α × β × FileSystem :=
  let (a, fs) := p.run fs
  let (b, fs) := q.run fs
  (a, b, fs)

/-- Two programs take turns. The list says who takes the next step, the first one if `true`. When it is used up,
the first program goes on to its end, and then the second, so that each way to take turns to the end is there. -/
def together : List Bool → Program α → Program β → FileSystem → α × β × FileSystem
  | [], p, q, fs => inTurn p q fs
  | true :: turns, p, q, fs => let (p, fs) := p.step fs; together turns p q fs
  | false :: turns, p, q, fs => let (q, fs) := q.step fs; together turns p q fs

/-- The outcome as the other program sees it. -/
def swapped (o : α × β × FileSystem) : β × α × FileSystem := (o.2.1, o.1, o.2.2)

/-- Some steps of one program. -/
def steps : Nat → Program α → FileSystem → Program α × FileSystem
  | 0, p, fs => (p, fs)
  | n + 1, p, fs => let (p, fs) := p.step fs; steps n p fs

/-- Running alone, the program writes a file. -/
def writes : Program α → FileSystem → Prop
  | done _, _ => False
  | present p next, fs => (next (fs.present p)).writes fs
  | names p next, fs => (next (fs.names p)).writes fs
  | read p next, fs => (next (fs.read p)).writes fs
  | makeDirectories p next, fs => let (r, fs) := fs.makeDirectories p; (next r).writes fs
  | write p bytes next, fs =>
    let (r, fs) := written fs p bytes
    r = .ok () ∨ (next r).writes fs

variable {p p' : Program α} {q : Program β} {fs s : FileSystem} {a : α}

theorem andThen_assoc {γ : Type} (p : Program α) (f : α → Program β) (g : β → Program γ) :
    (p.andThen f).andThen g = p.andThen fun a => (f a).andThen g := by
  induction p with
  | done a => rfl
  | present file next ih => exact congrArg (present file) (funext ih)
  | names file next ih => exact congrArg (names file) (funext ih)
  | read file next ih => exact congrArg (read file) (funext ih)
  | makeDirectories file next ih => exact congrArg (makeDirectories file) (funext ih)
  | write file bytes next ih => exact congrArg (write file bytes) (funext ih)

theorem writes_pure (a : α) (fs : FileSystem) : ¬ (pure a : Program α).writes fs := id

theorem writes_present (file : Path) (next : Bool → Program α) (fs : FileSystem) :
    (present file done >>= next).writes fs ↔ (next (fs.present file)).writes fs := Iff.rfl

theorem writes_read (file : Path) (fs : FileSystem) : ¬ (read file done).writes fs := id

theorem writes_makeDirectories (dir : Path) (fs : FileSystem) : ¬ (makeDirectories dir done).writes fs := id

theorem writes_write (file : Path) (bytes : List UInt8) (fs : FileSystem) :
    (write file bytes done).writes fs ↔ (written fs file bytes).1 = .ok () := iff_of_eq (or_false _)

theorem writes_bind (p : Program α) (f : α → Program β) (fs : FileSystem) :
    (p >>= f).writes fs ↔ p.writes fs ∨ (f (p.run fs).1).writes (p.run fs).2 := by
  induction p generalizing fs with
  | done a => exact (iff_of_eq (false_or _)).symm
  | present file next ih => exact ih _ fs
  | names file next ih => exact ih _ fs
  | read file next ih => exact ih _ fs
  | makeDirectories file next ih => exact ih _ _
  | write file bytes next ih => exact (or_congr_right (ih _ _)).trans or_assoc.symm

theorem inTurn_of_run (h : p.run fs = (a, s)) : inTurn p q fs = (a, (q.run s).1, (q.run s).2) := by
  rw [inTurn, h]

theorem together_true (turns : List Bool) (p : Program α) (q : Program β) (fs : FileSystem) :
    together (true :: turns) p q fs = together turns (p.step fs).1 q (p.step fs).2 := rfl

theorem together_false (turns : List Bool) (p : Program α) (q : Program β) (fs : FileSystem) :
    together (false :: turns) p q fs = together turns p (q.step fs).1 (q.step fs).2 := rfl

theorem together_done_left (turns : List Bool) (a : α) (q : Program β) (fs : FileSystem) :
    together turns (done a) q fs = (a, (q.run fs).1, (q.run fs).2) := by
  induction turns generalizing q fs with
  | nil => rfl
  | cons turn turns ih =>
    cases turn with
    | true => exact ih q fs
    | false => rw [together_false, ih, run_step]

theorem together_done_right (turns : List Bool) (p : Program α) (b : β) (fs : FileSystem) :
    together turns p (done b) fs = ((p.run fs).1, b, (p.run fs).2) := by
  induction turns generalizing p fs with
  | nil => rfl
  | cons turn turns ih =>
    cases turn with
    | true => rw [together_true, ih, run_step]
    | false => exact ih p fs

theorem together_steps_left (n : Nat) (turns : List Bool) (p : Program α) (q : Program β) (fs : FileSystem) :
    together (List.replicate n true ++ turns) p q fs = together turns (steps n p fs).1 q (steps n p fs).2 := by
  induction n generalizing p fs with
  | zero => rfl
  | succ n ih => exact ih (p.step fs).1 (p.step fs).2

theorem together_steps_right (n : Nat) (turns : List Bool) (p : Program α) (q : Program β) (fs : FileSystem) :
    together (List.replicate n false ++ turns) p q fs = together turns p (steps n q fs).1 (steps n q fs).2 := by
  induction n generalizing q fs with
  | zero => rfl
  | succ n ih => exact ih (q.step fs).1 (q.step fs).2

theorem exists_steps (p : Program α) (fs : FileSystem) :
    ∃ n, steps n p fs = (done (p.run fs).1, (p.run fs).2) := by
  induction p generalizing fs with
  | done a => exact ⟨0, rfl⟩
  | present file next ih => exact (ih _ fs).imp' Nat.succ fun _ ended => ended
  | names file next ih => exact (ih _ fs).imp' Nat.succ fun _ ended => ended
  | read file next ih => exact (ih _ fs).imp' Nat.succ fun _ ended => ended
  | makeDirectories file next ih => exact (ih _ _).imp' Nat.succ fun _ ended => ended
  | write file bytes next ih => exact (ih _ _).imp' Nat.succ fun _ ended => ended

/-! ## How two programs may end -/

/-- One after the other, or both as if alone. In that case the file is as the last of them left it. -/
inductive Outcome (p : Program α) (q : Program β) (fs : FileSystem) : α × β × FileSystem → Prop
  | first : Outcome p q fs (inTurn p q fs)
  | second : Outcome p q fs (swapped (inTurn q p fs))
  | overwritten {left : FileSystem} (hp : p.writes fs) (hq : q.writes fs)
      (last : left = (p.run fs).2 ∨ left = (q.run fs).2) : Outcome p q fs ((p.run fs).1, (q.run fs).1, left)

theorem outcome_iff {o : α × β × FileSystem} :
    Outcome p q fs o ↔ o = inTurn p q fs ∨ swapped o = inTurn q p fs ∨
      p.writes fs ∧ q.writes fs ∧ o.1 = (p.run fs).1 ∧ o.2.1 = (q.run fs).1 ∧
        (o.2.2 = (p.run fs).2 ∨ o.2.2 = (q.run fs).2) := by
  constructor
  · rintro (_ | _ | ⟨hp, hq, last⟩)
    · exact .inl rfl
    · exact .inr (.inl rfl)
    · exact .inr (.inr ⟨hp, hq, rfl, rfl, last⟩)
  · rintro (rfl | after | ⟨hp, hq, left, right, last⟩)
    · exact .first
    · have same : o = swapped (inTurn q p fs) := after ▸ rfl
      exact same ▸ .second
    · obtain ⟨a, b, left⟩ := o
      subst left right
      exact .overwritten hp hq last

theorem Outcome.of_run {b : β} (h : q.run fs = (b, s)) : Outcome p q fs ((p.run s).1, b, (p.run s).2) := by
  have after : Outcome p q fs (swapped (inTurn q p fs)) := .second
  rwa [inTurn_of_run h] at after

theorem Outcome.swap {o : α × β × FileSystem} (h : Outcome p q fs o) : Outcome q p fs (swapped o) := by
  cases h with
  | first => exact .second
  | second => exact .first
  | overwritten hp hq last => exact .overwritten hq hp last.symm

theorem together_iff_of_done (a : α) (b : β) (fs : FileSystem) (o : α × β × FileSystem) :
    (∃ turns, together turns (done a) (done b) fs = o) ↔ Outcome (done a) (done b) fs o := by
  constructor
  · rintro ⟨turns, rfl⟩
    rw [together_done_left]
    exact .first
  · rintro (_ | _ | busy)
    · exact ⟨[], rfl⟩
    · exact ⟨[], rfl⟩
    · exact busy.elim

end Program

/-! ## One file -/

namespace FileSystem

/-- The directories of a file can be made again, and making them does not touch the file. Once something fit is
written to the file, the directories and the file stay where they are, and everything fit can be written. -/
structure Steady (dir file : Path) (Fit : List UInt8 → Prop) (fs : FileSystem) : Prop where
  again : (fs.makeDirectories dir).2.makeDirectories dir = fs.makeDirectories dir
  present : (fs.makeDirectories dir).2.present file = fs.present file
  read : fs.present file = true → (fs.makeDirectories dir).2.read file = fs.read file
  written : (fs.makeDirectories dir).1 = .ok () → ∀ bytes s, Fit bytes →
    (fs.makeDirectories dir).2.write file bytes = .ok s →
      s.makeDirectories dir = (.ok (), s) ∧ s.present file = true ∧
        ∀ others, Fit others → ∃ t, (fs.makeDirectories dir).2.write file others = .ok t ∧ s.write file others = .ok t

/-- The file system after the directories were made and the file was written. -/
def Written (dir file : Path) (Fit : List UInt8 → Prop) (fs s : FileSystem) : Prop :=
  (fs.makeDirectories dir).1 = .ok () ∧
    ∃ bytes, Fit bytes ∧ (fs.makeDirectories dir).2.write file bytes = .ok s

variable {dir file : Path} {Fit : List UInt8 → Prop} {fs s : FileSystem}

theorem Steady.made (steady : fs.Steady dir file Fit) : (fs.makeDirectories dir).2.Steady dir file Fit where
  again := by rw [steady.again, steady.again]
  present := by rw [steady.again]
  read := by rw [steady.again]; exact fun _ => rfl
  written := by rw [steady.again]; exact steady.written

end FileSystem

namespace Program

open FileSystem (Steady Written)

variable {α β : Type} {dir file : Path} {Fit : List UInt8 → Prop} {p : Program α} {q : Program β}
  {fs s : FileSystem}

/-- Makes the directories of a file and writes the file. -/
def storing (dir file : Path) (bytes : List UInt8) (failed : Errno → α) (ended : Except Errno Unit → α) : Program α :=
  makeDirectories dir fun made =>
    match made with
    | .error e => done (failed e)
    | .ok () => write file bytes fun r => done (ended r)

/-- A program that does not look any more. -/
inductive Settled (dir file : Path) (Fit : List UInt8 → Prop) : Program α → Prop
  | done (a : α) : Settled dir file Fit (.done a)
  | storing {bytes : List UInt8} (fit : Fit bytes) (failed : Errno → α) (ended : Except Errno Unit → α) :
    Settled dir file Fit (storing dir file bytes failed ended)

/-- A program that shares a file: it tests if the file is there, may read it if so, and then does not look any
more. -/
inductive Sharing (dir file : Path) (Fit : List UInt8 → Prop) : Program α → FileSystem → Prop
  | testing {next : Bool → Program α} {fs : FileSystem} (missing : Settled dir file Fit (next false))
    (found : Settled dir file Fit (next true) ∨
      ∃ next', next true = .read file next' ∧ ∀ r, Settled dir file Fit (next' r)) :
    Sharing dir file Fit (.present file next) fs
  | reading {next : Except Errno (List UInt8) → Program α} {fs : FileSystem} (there : fs.present file = true)
    (settled : ∀ r, Settled dir file Fit (next r)) : Sharing dir file Fit (.read file next) fs
  | settled {p : Program α} {fs : FileSystem} (settled : Settled dir file Fit p) : Sharing dir file Fit p fs
  | writing {bytes : List UInt8} {fs : FileSystem} (fit : Fit bytes) (ended : Except Errno Unit → α)
    (made : fs.makeDirectories dir = (.ok (), fs)) :
    Sharing dir file Fit (.write file bytes fun r => .done (ended r)) fs

/-- What a program that shares a file does when it runs alone, now or once the directories are made. -/
inductive Effect (dir file : Path) (Fit : List UInt8 → Prop) (p : Program α) (fs : FileSystem) : Prop
  | nothing (idle : ¬ p.writes fs) (idle' : ¬ p.writes (fs.makeDirectories dir).2) (a : α) (now : p.run fs = (a, fs))
    (later : p.run (fs.makeDirectories dir).2 = (a, (fs.makeDirectories dir).2))
  | makes (idle : ¬ p.writes fs) (idle' : ¬ p.writes (fs.makeDirectories dir).2) (a : α)
    (now : p.run fs = (a, (fs.makeDirectories dir).2))
    (later : p.run (fs.makeDirectories dir).2 = (a, (fs.makeDirectories dir).2))
  | stores (busy : p.writes fs) (a : α) {s : FileSystem} (written : Written dir file Fit fs s)
    (now : p.run fs = (a, s)) (later : p.run (fs.makeDirectories dir).2 = (a, s))

/-! ## Alone -/

theorem Effect.of_same {p' : Program α} (effect : Effect dir file Fit p' fs) (writes : p.writes fs ↔ p'.writes fs)
    (writes' : p.writes (fs.makeDirectories dir).2 ↔ p'.writes (fs.makeDirectories dir).2)
    (now : p.run fs = p'.run fs) (later : p.run (fs.makeDirectories dir).2 = p'.run (fs.makeDirectories dir).2) :
    Effect dir file Fit p fs := by
  cases effect with
  | nothing idle idle' a h h' =>
    exact .nothing (mt writes.mp idle) (mt writes'.mp idle') a (now.trans h) (later.trans h')
  | makes idle idle' a h h' => exact .makes (mt writes.mp idle) (mt writes'.mp idle') a (now.trans h) (later.trans h')
  | stores busy a written h h' => exact .stores (writes.mpr busy) a written (now.trans h) (later.trans h')

section

variable {bytes : List UInt8} (failed : Errno → α) (ended : Except Errno Unit → α)

theorem write_of_error {e : Errno} (h : fs.write file bytes = .error e) :
    (write file bytes fun r => done (ended r)).run fs = (ended (.error e), fs) ∧
      ¬ (write file bytes fun r => done (ended r)).writes fs := by
  simp [run, writes, written, h]

theorem write_of_ok (h : fs.write file bytes = .ok s) :
    (write file bytes fun r => done (ended r)).run fs = (ended (.ok ()), s) ∧
      (write file bytes fun r => done (ended r)).writes fs := by
  simp [run, writes, written, h]

theorem storing_of_error {e : Errno} (made : (fs.makeDirectories dir).1 = .ok ())
    (h : (fs.makeDirectories dir).2.write file bytes = .error e) :
    (storing dir file bytes failed ended).run fs = (ended (.error e), (fs.makeDirectories dir).2) ∧
      ¬ (storing dir file bytes failed ended).writes fs := by
  simp [storing, run, writes, made, write_of_error ended h]

theorem storing_of_ok (made : (fs.makeDirectories dir).1 = .ok ())
    (h : (fs.makeDirectories dir).2.write file bytes = .ok s) :
    (storing dir file bytes failed ended).run fs = (ended (.ok ()), s) ∧
      (storing dir file bytes failed ended).writes fs := by
  simp [storing, run, writes, made, write_of_ok ended h]

variable (file bytes)

theorem storing_of_failed {e : Errno} (h : (fs.makeDirectories dir).1 = .error e) :
    (storing dir file bytes failed ended).run fs = (failed e, (fs.makeDirectories dir).2) ∧
      ¬ (storing dir file bytes failed ended).writes fs := by
  simp [storing, run, writes, h]

theorem storing_again (steady : fs.Steady dir file Fit) :
    (storing dir file bytes failed ended).run (fs.makeDirectories dir).2 =
        (storing dir file bytes failed ended).run fs ∧
      ((storing dir file bytes failed ended).writes (fs.makeDirectories dir).2 ↔
        (storing dir file bytes failed ended).writes fs) := by
  simp [storing, run, writes, steady.again]

end

theorem Settled.effect (settled : Settled dir file Fit p) (steady : fs.Steady dir file Fit) :
    Effect dir file Fit p fs := by
  cases settled with
  | done a => exact .nothing id id a rfl rfl
  | @storing bytes fit failed ended =>
    obtain ⟨again, writesAgain⟩ := storing_again file bytes failed ended steady
    cases made : (fs.makeDirectories dir).1 with
    | error e =>
      obtain ⟨now, idle⟩ := storing_of_failed file bytes failed ended made
      exact .makes idle (mt writesAgain.mp idle) _ now (again.trans now)
    | ok =>
      cases outcome : (fs.makeDirectories dir).2.write file bytes with
      | error e =>
        obtain ⟨now, idle⟩ := storing_of_error failed ended made outcome
        exact .makes idle (mt writesAgain.mp idle) _ now (again.trans now)
      | ok s =>
        obtain ⟨now, busy⟩ := storing_of_ok failed ended made outcome
        exact .stores busy _ ⟨made, bytes, fit, outcome⟩ now (again.trans now)

theorem Sharing.effect (sharing : Sharing dir file Fit p fs) (steady : fs.Steady dir file Fit) :
    Effect dir file Fit p fs := by
  cases sharing with
  | settled settled => exact settled.effect steady
  | @writing bytes _ fit ended made =>
    have result : (fs.makeDirectories dir).1 = .ok () := by rw [made]
    have same : (fs.makeDirectories dir).2 = fs := by rw [made]
    cases outcome : fs.write file bytes with
    | error e =>
      obtain ⟨now, idle⟩ := write_of_error ended outcome
      exact .nothing idle (same.symm ▸ idle) _ now (by rw [same, now])
    | ok s =>
      obtain ⟨now, busy⟩ := write_of_ok ended outcome
      exact .stores busy _ ⟨result, bytes, fit, by rw [same, outcome]⟩ now (by rw [same, now])
  | @reading next _ there settled =>
    have read := steady.read there
    exact ((settled (fs.read file)).effect steady).of_same Iff.rfl (by simp [writes, read]) rfl (by simp [run, read])
  | @testing next _ missing found =>
    have present := steady.present
    cases there : fs.present file with
    | false =>
      rw [there] at present
      exact (missing.effect steady).of_same (by simp [writes, there]) (by simp [writes, present])
        (by simp [run, there]) (by simp [run, present])
    | true =>
      rw [there] at present
      have same : Effect dir file Fit (next true) fs := by
        obtain settled | ⟨next', reads, settled⟩ := found
        · exact settled.effect steady
        · have read := steady.read there
          rw [reads]
          exact ((settled (fs.read file)).effect steady).of_same Iff.rfl (by simp [writes, read]) rfl
            (by simp [run, read])
      exact same.of_same (by simp [writes, there]) (by simp [writes, present])
        (by simp [run, there]) (by simp [run, present])

/-! ## One step -/

theorem Settled.replaces (settled : Settled dir file Fit p) (steady : fs.Steady dir file Fit)
    (h : Written dir file Fit fs s) : (∃ a, p = .done a) ∨ p.writes fs ∧ p.run s = p.run fs := by
  cases settled with
  | done a => exact .inl ⟨a, rfl⟩
  | @storing bytes fit failed ended =>
    obtain ⟨made, others, fitOthers, outcome⟩ := h
    obtain ⟨again, -, all⟩ := steady.written made others s fitOthers outcome
    obtain ⟨t, before, after⟩ := all bytes fit
    obtain ⟨now, busy⟩ := storing_of_ok failed ended made before
    have later := (storing_of_ok failed ended (by rw [again]) (by rw [again, after])).1
    exact .inr ⟨busy, later.trans now.symm⟩

/-- A step that neither ends a program nor writes: the program goes on as it would have, unless the other one
writes first. -/
structure Quiet (dir file : Path) (Fit : List UInt8 → Prop) (p : Program α) (fs : FileSystem) (p' : Program α)
    (s : FileSystem) : Prop where
  sharing : Sharing dir file Fit p' s
  stays : s = fs ∨ s = (fs.makeDirectories dir).2
  later : p'.run (fs.makeDirectories dir).2 = p.run (fs.makeDirectories dir).2
  busy : p'.writes s → p.writes fs
  written : ∀ t, Written dir file Fit fs t → p'.run t = p.run t ∨ p.writes fs ∧ p'.run t = p.run fs

theorem Settled.looked {p' : Program α} (settled : Settled dir file Fit p') (steady : fs.Steady dir file Fit)
    (step : p.step fs = (p', fs)) (busy : p.writes fs ↔ p'.writes fs)
    (later : p'.run (fs.makeDirectories dir).2 = p.run (fs.makeDirectories dir).2) :
    (∃ a, (p.step fs).1 = .done a) ∨ Quiet dir file Fit p fs (p.step fs).1 (p.step fs).2 := by
  have now := run_step p fs
  rw [step] at now ⊢
  by_cases ended : ∃ a, p' = .done a
  · exact .inl ended
  refine .inr ⟨.settled settled, .inl rfl, later, busy.mpr, fun t h => .inr ?_⟩
  obtain ⟨writes, replaced⟩ := (settled.replaces steady h).resolve_left ended
  exact ⟨busy.mpr writes, replaced.trans now⟩

theorem Settled.step (settled : Settled dir file Fit p) (steady : fs.Steady dir file Fit) :
    (∃ a, (p.step fs).1 = .done a) ∨ Quiet dir file Fit p fs (p.step fs).1 (p.step fs).2 := by
  cases settled with
  | done a => exact .inl ⟨a, rfl⟩
  | @storing bytes fit failed ended =>
    cases made : (fs.makeDirectories dir).1 with
    | error e => exact .inl ⟨failed e, by simp [Program.storing, Program.step, made]⟩
    | ok =>
      have step : (Program.storing dir file bytes failed ended).step fs =
          (.write file bytes fun r => .done (ended r), (fs.makeDirectories dir).2) := by
        simp [Program.storing, Program.step, made]
      have again : (fs.makeDirectories dir).2.makeDirectories dir = (.ok (), (fs.makeDirectories dir).2) :=
        steady.again.trans (Prod.ext made rfl)
      rw [step]
      refine .inr ⟨.writing fit ended again, .inr rfl, ?_, ?_, ?_⟩
      · simp [Program.storing, run, again]
      · simp [Program.storing, writes, made]
      · rintro t ⟨-, others, fitOthers, outcome⟩
        have kept := (steady.written made others t fitOthers outcome).1
        exact .inl (by simp [Program.storing, run, kept])

theorem Sharing.step (sharing : Sharing dir file Fit p fs) (steady : fs.Steady dir file Fit) :
    (∃ a, (p.step fs).1 = .done a) ∨ Quiet dir file Fit p fs (p.step fs).1 (p.step fs).2 := by
  cases sharing with
  | settled settled => exact settled.step steady
  | writing fit ended made => exact .inl ⟨_, rfl⟩
  | @reading next _ there settled =>
    exact (settled _).looked steady rfl Iff.rfl (by simp [run, steady.read there])
  | @testing next _ missing found =>
    have present := steady.present
    cases there : fs.present file with
    | false =>
      rw [there] at present
      exact missing.looked steady (by simp [Program.step, there]) (by simp [writes, there]) (by simp [run, present])
    | true =>
      rw [there] at present
      have step : (Program.present file next).step fs = (next true, fs) := by simp [Program.step, there]
      obtain settled | ⟨next', reads, settled⟩ := found
      · exact settled.looked steady step (by simp [writes, there]) (by simp [run, present])
      -- The file is still there to be read after the other program has written it.
      rw [step, reads]
      refine .inr ⟨.reading there settled, .inl rfl, ?_, ?_, ?_⟩
      · simp [run, present, reads]
      · simp [writes, there, reads]
      · rintro t ⟨made, others, fitOthers, outcome⟩
        have kept := (steady.written made others t fitOthers outcome).2.1
        exact .inl (by simp [run, kept, reads])

/-! ## Any number of steps -/

theorem Outcome.before {p' : Program α} {o : α × β × FileSystem} (h : Outcome p' q s o) (now : p.run fs = p'.run s)
    (quiet : Quiet dir file Fit p fs p' s) (effect : Effect dir file Fit q fs) : Outcome p q fs o := by
  cases h with
  | first =>
    have same : inTurn p' q s = inTurn p q fs := by rw [inTurn, inTurn, now]
    exact same ▸ .first
  | second =>
    cases effect with
    | nothing _ _ b hq hq' =>
      have hq' : q.run s = (b, s) := by obtain rfl | rfl := quiet.stays <;> assumption
      rw [inTurn_of_run hq', swapped, ← now]
      exact .of_run hq
    | makes _ _ b hq hq' =>
      have hq' : q.run s = (b, (fs.makeDirectories dir).2) := by obtain rfl | rfl := quiet.stays <;> assumption
      rw [inTurn_of_run hq', swapped, quiet.later]
      exact .of_run hq
    | @stores busy b t written hq hq' =>
      have hq' : q.run s = (b, t) := by obtain rfl | rfl := quiet.stays <;> assumption
      rw [inTurn_of_run hq', swapped]
      obtain same | ⟨hp, replaced⟩ := quiet.written t written
      · rw [same]
        exact .of_run hq
      · have overwritten : Outcome p q fs ((p.run fs).1, (q.run fs).1, (p.run fs).2) := .overwritten hp busy (.inl rfl)
        rwa [hq, ← replaced] at overwritten
  | overwritten hp storing last =>
    cases effect with
    | nothing idle idle' => obtain rfl | rfl := quiet.stays <;> contradiction
    | makes idle idle' => obtain rfl | rfl := quiet.stays <;> contradiction
    | stores busy b written hq hq' =>
      have same : q.run s = q.run fs := by obtain rfl | rfl := quiet.stays <;> simp only [hq, hq']
      rw [← now, same] at last ⊢
      exact .overwritten (quiet.busy hp) busy last

theorem Sharing.stays {fs' : FileSystem} (sharing : Sharing dir file Fit p fs) (steady : fs.Steady dir file Fit)
    (stays : fs' = fs ∨ fs' = (fs.makeDirectories dir).2) : Sharing dir file Fit p fs' := by
  obtain rfl | rfl := stays
  · exact sharing
  cases sharing with
  | testing missing found => exact .testing missing found
  | reading there settled => exact .reading (steady.present.trans there) settled
  | settled settled => exact .settled settled
  | writing fit ended made => exact .writing fit ended (steady.again.trans (by rw [made]))

theorem Outcome.of_step {o : α × β × FileSystem} (steady : fs.Steady dir file Fit) (hp : Sharing dir file Fit p fs)
    (hq : Sharing dir file Fit q fs)
    (ended : ∀ a, (p.step fs).1 = .done a → o = (a, (q.run (p.step fs).2).1, (q.run (p.step fs).2).2))
    (later : (p.step fs).2.Steady dir file Fit → Sharing dir file Fit (p.step fs).1 (p.step fs).2 →
      Sharing dir file Fit q (p.step fs).2 → Outcome (p.step fs).1 q (p.step fs).2 o) : Outcome p q fs o := by
  obtain ⟨a, done⟩ | quiet := hp.step steady
  · have alone : p.run fs = (a, (p.step fs).2) := by rw [← run_step, done]; rfl
    rw [ended a done, ← inTurn_of_run alone]
    exact .first
  · have steady' : (p.step fs).2.Steady dir file Fit := by
      obtain same | same := quiet.stays
      · exact same.symm ▸ steady
      · exact same.symm ▸ steady.made
    exact (later steady' quiet.sharing (hq.stays steady quiet.stays)).before (run_step p fs).symm quiet
      (hq.effect steady)

/-- **Two programs that share a file** end, whichever way they take turns, as if one had run after the other, or
each as if alone, and then the file is as only one of them left it. -/
theorem outcome_together (steady : fs.Steady dir file Fit) (hp : Sharing dir file Fit p fs)
    (hq : Sharing dir file Fit q fs) (turns : List Bool) : Outcome p q fs (together turns p q fs) := by
  induction turns generalizing p q fs with
  | nil => exact .first
  | cons turn turns ih =>
    cases turn with
    | true => exact .of_step steady hp hq (fun a done => by rw [together_true, done, together_done_left]) ih
    | false =>
      have swap : Outcome q p fs (swapped (together (false :: turns) p q fs)) :=
        .of_step steady hq hp (fun b done => by rw [together_false, done, together_done_right]; rfl)
          fun steady' hq' hp' => (ih steady' hp' hq').swap
      exact swap.swap

/-! ## Every outcome -/

/-- A program that will write looks first. Then it does the same wherever the other one has written. -/
theorem Sharing.exists_looked (sharing : Sharing dir file Fit p fs) (steady : fs.Steady dir file Fit)
    (busy : p.writes fs) : ∃ n p', steps n p fs = (p', fs) ∧ p'.run fs = p.run fs ∧
      ∀ t, Written dir file Fit fs t → p'.run t = p.run fs := by
  have settled : ∀ p' : Program α, Settled dir file Fit p' → p'.writes fs →
      ∀ t, Written dir file Fit fs t → p'.run t = p'.run fs := fun p' settled busy t written => by
    obtain ⟨a, rfl⟩ | ⟨-, replaced⟩ := settled.replaces steady written
    · exact busy.elim
    · exact replaced
  cases sharing with
  | settled h => exact ⟨0, p, rfl, rfl, settled p h busy⟩
  | @reading next _ there h => exact ⟨1, _, rfl, rfl, settled _ (h _) busy⟩
  | @writing bytes _ fit ended made =>
    refine ⟨0, _, rfl, rfl, ?_⟩
    rintro t ⟨ok, others, fitOthers, outcome⟩
    obtain ⟨s, before, after⟩ := (steady.written ok others t fitOthers outcome).2.2 bytes fit
    rw [made] at before
    rw [(write_of_ok ended before).1, (write_of_ok ended after).1]
  | @testing next _ missing found =>
    cases there : fs.present file with
    | false =>
      have alone : (Program.present file next).run fs = (next false).run fs := by simp [run, there]
      rw [writes, there] at busy
      exact ⟨1, next false, by simp [steps, Program.step, there], alone.symm, alone.symm ▸ settled _ missing busy⟩
    | true =>
      have alone : (Program.present file next).run fs = (next true).run fs := by simp [run, there]
      rw [writes, there] at busy
      rw [alone]
      obtain h | ⟨next', reads, h⟩ := found
      · exact ⟨1, next true, by simp [steps, Program.step, there], rfl, settled _ h busy⟩
      · rw [reads] at busy ⊢
        exact ⟨2, next' (fs.read file), by simp [steps, Program.step, there, reads], rfl, settled _ (h _) busy⟩

theorem Sharing.written (sharing : Sharing dir file Fit p fs) (steady : fs.Steady dir file Fit) (busy : p.writes fs) :
    Written dir file Fit fs (p.run fs).2 := by
  cases sharing.effect steady with
  | nothing idle => exact absurd busy idle
  | makes idle => exact absurd busy idle
  | stores _ a written now => rwa [now]

/-- **All the ways in which two programs that share a file can end.** -/
theorem together_iff (steady : fs.Steady dir file Fit) (hp : Sharing dir file Fit p fs)
    (hq : Sharing dir file Fit q fs) (o : α × β × FileSystem) :
    (∃ turns, together turns p q fs = o) ↔ Outcome p q fs o := by
  constructor
  · rintro ⟨turns, rfl⟩
    exact outcome_together steady hp hq turns
  intro h
  cases h with
  | first => exact ⟨[], rfl⟩
  | second =>
    obtain ⟨n, ended⟩ := exists_steps q fs
    exact ⟨List.replicate n false ++ [], by rw [together_steps_right, ended]; rfl⟩
  | overwritten busy busy' last =>
    obtain ⟨n, p', looked, alone, replaces⟩ := hp.exists_looked steady busy
    obtain rfl | rfl := last
    · -- The second program writes first.
      obtain ⟨m, ended⟩ := exists_steps q fs
      refine ⟨List.replicate n true ++ (List.replicate m false ++ []), ?_⟩
      rw [together_steps_left, looked, together_steps_right, ended, together, inTurn,
        replaces _ (hq.written steady busy')]
      rfl
    · obtain ⟨m, q', looked', -, replaces'⟩ := hq.exists_looked steady busy'
      refine ⟨List.replicate n true ++ (List.replicate m false ++ []), ?_⟩
      rw [together_steps_left, looked, together_steps_right, looked', together, inTurn, alone]
      simp only [replaces' _ (hp.written steady busy)]

end Program

end Files

end ModelDepot
