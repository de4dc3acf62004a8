import Configurator.Command.Session

/-!
# What commands leave

A command gives a result or fails, and leaves the files and what it has printed. What it leaves is that
of its parts in turn (`runFrom_bind`), and printing leaves the files alone (`Prints`).
-/

namespace Configurator.Command

variable {α β : Type} {p : Progress}

/-- Carries out a command on what others have left. -/
def runFrom (command : Command α) (p : Progress) : Except Failure α × Progress :=
  StateT.run (ExceptT.run command) p

theorem execute_eq (command : Command α) (tree : FileTree) :
    execute command tree = command.runFrom { tree } :=
  rfl

theorem runFrom_bind (command : Command α) (next : α → Command β) (p : Progress) :
    (command >>= next).runFrom p =
      match command.runFrom p with
      | (.ok a, p) => (next a).runFrom p
      | (.error failure, p) => (.error failure, p) := by
  show StateT.run (ExceptT.run (command >>= next)) p = _
  simp only [ExceptT.run_bind, StateT.run_bind]
  cases h : StateT.run (ExceptT.run command) p with
  | mk result p' => cases result <;> simp [runFrom, h] <;> rfl

theorem runFrom_get (p : Progress) : (get : Command Progress).runFrom p = (.ok p, p) :=
  rfl

theorem runFrom_modify (f : Progress → Progress) (p : Progress) :
    (modify f : Command PUnit).runFrom p = (.ok (), f p) :=
  rfl

theorem runFrom_attempt (r : Except Error α) (p : Progress) :
    (attempt r).runFrom p = (r.mapError .error, p) := by
  cases r <;> rfl

/-- Whether a command succeeds and leaves the files alone, whatever was left before. -/
def Prints (command : Command Unit) : Prop :=
  ∀ p, ∃ p', command.runFrom p = (.ok (), p') ∧ p'.tree = p.tree

theorem prints_pure : Prints (pure ()) :=
  fun p => ⟨p, rfl, rfl⟩

theorem prints_say (line : String) : Prints (say line) :=
  fun _ => ⟨_, rfl, rfl⟩

theorem Prints.seq {first second : Command Unit} (h : first.Prints) (h' : second.Prints) :
    Prints (do first; second) := by
  intro p
  obtain ⟨p', hp', htree⟩ := h p
  obtain ⟨p'', hp'', htree'⟩ := h' p'
  exact ⟨p'', by rw [runFrom_bind, hp']; exact hp'', htree'.trans htree⟩

theorem prints_sayAll (lines : List String) : Prints (sayAll lines) := by
  induction lines with
  | nil => exact prints_pure
  | cons line lines ih => exact (prints_say line).seq ih

/-- What is carried out behind printing finds the same files. -/
theorem Prints.runFrom_seq {first : Command Unit} (h : first.Prints) (second : Command α)
    (p : Progress) :
    ∃ p', p'.tree = p.tree ∧ (do first; second).runFrom p = second.runFrom p' := by
  obtain ⟨p', hp', htree⟩ := h p
  exact ⟨p', htree, by rw [runFrom_bind, hp']⟩

/-- What is carried out whether or not something is printed first finds the same files. -/
theorem Prints.runFrom_ite {first : Command Unit} (h : first.Prints) (condition : Prop)
    [Decidable condition] (second : Command α) (p : Progress) :
    ∃ p', p'.tree = p.tree
      ∧ (if condition then do first; second else second).runFrom p = second.runFrom p' := by
  split
  · exact h.runFrom_seq second p
  · exact ⟨p, rfl, rfl⟩

/-- Whether a command gives a result and leaves the files alone, whatever was left before. -/
def Gives (command : Command α) (a : α) : Prop :=
  ∀ p, ∃ p', command.runFrom p = (.ok a, p') ∧ p'.tree = p.tree

theorem Prints.gives {command : Command Unit} (h : command.Prints) : command.Gives () :=
  h

theorem gives_pure (a : α) : Gives (pure a) a :=
  fun p => ⟨p, rfl, rfl⟩

theorem gives_attempt {r : Except Error α} {a : α} (h : r = .ok a) : (attempt r).Gives a := by
  rw [h]
  exact gives_pure a

theorem Gives.bind {command : Command α} {next : α → Command β} {a : α} {b : β}
    (h : command.Gives a) (h' : (next a).Gives b) : (command >>= next).Gives b := by
  intro p
  obtain ⟨p', hp', htree⟩ := h p
  obtain ⟨p'', hp'', htree'⟩ := h' p'
  exact ⟨p'', by rw [runFrom_bind, hp']; exact hp'', htree'.trans htree⟩

theorem runFrom_saveSession (s : Session) (now : Instant) (p : Progress) :
    (saveSession s now).runFrom p =
      match s.save now p.tree with
      | .ok tree => (.ok (), { p with tree })
      | .error failure => (.error failure, p) := by
  rw [saveSession, runFrom_bind, runFrom_get]
  dsimp only
  cases s.save now p.tree <;> rfl

end Configurator.Command
