import SatWalk.Files.Loading

/-! Actions on a world, step by step. A sequence gives a value exactly if each of its parts does, in
the world that the part before it left; looking at the world leaves it as it is, and a written
file changes nothing but the disk. -/

namespace SatWalk.World

variable {ε α β : Type} {programs : String → Option Program} {w w' : World}

theorem run_bind_eq_ok_iff {x : ExceptT ε (StateM World) α} {k : α → ExceptT ε (StateM World) β}
    {b : β} : (x >>= k).run.run w = (.ok b, w') ↔
      ∃ a w₁, x.run.run w = (.ok a, w₁) ∧ (k a).run.run w₁ = (.ok b, w') := by
  rw [ExceptT.run_bind, StateT.run_bind]
  rcases hx : x.run.run w with ⟨_ | a, w₁⟩
  · refine iff_of_false nofun ?_
    rintro ⟨_, _, ⟨⟩, -⟩
  · constructor
    · exact fun h => ⟨a, w₁, rfl, h⟩
    · rintro ⟨_, _, ⟨⟩, h⟩
      exact h

/-- After a part that gave a value the rest goes on in the world that it left. -/
theorem run_bind {x : ExceptT ε (StateM World) α} (a : α) (h : x.run.run w = (.ok a, w'))
    (k : α → ExceptT ε (StateM World) β) : (x >>= k).run.run w = (k a).run.run w' := by
  rw [ExceptT.run_bind, StateT.run_bind, h]
  rfl

/-- After a part that failed nothing is done. -/
theorem run_bind_of_error {x : ExceptT ε (StateM World) α} {e : ε}
    (h : x.run.run w = (.error e, w')) (k : α → ExceptT ε (StateM World) β) :
    (x >>= k).run.run w = (.error e, w') := by
  rw [ExceptT.run_bind, StateT.run_bind, h]
  rfl

theorem run_lift (act : StateM World α) :
    (liftM act : ExceptT ε (StateM World) α).run.run w = (.ok (act w).1, (act w).2) :=
  rfl

/-- A change of the errors leaves values as they are. -/
theorem run_adapt {ε' : Type} {x : ExceptT ε (StateM World) α} {a : α} (wrap : ε → ε')
    (h : x.run.run w = (.ok a, w')) : (x.adapt wrap).run.run w = (.ok a, w') := by
  change StateT.run (Except.mapError wrap <$> x.run) w = _
  rw [StateT.run_map, h]
  rfl

/-! ### Files -/

theorem change_of_ok (act : Files.Disk → Except Files.Error Files.Disk) {disk : Files.Disk}
    (h : act w.disk = .ok disk) : change act w = (.ok (), { w with disk }) := by
  unfold change
  rw [h]

theorem change_of_error (act : Files.Disk → Except Files.Error Files.Disk) {e : Files.Error}
    (h : act w.disk = .error e) : change act w = (.error e, w) := by
  unfold change
  rw [h]

theorem writeFile_of_ok {path : String} {content : List UInt8} {disk : Files.Disk}
    (h : w.disk.writeFile path content = .ok disk) :
    (host programs).writeFile path content w = (.ok (), { w with disk }) :=
  change_of_ok (fun disk => disk.writeFile path content) h

theorem writeFile_of_error {path : String} {content : List UInt8} {e : Files.Error}
    (h : w.disk.writeFile path content = .error e) :
    (host programs).writeFile path content w = (.error e, w) :=
  change_of_error (fun disk => disk.writeFile path content) h

theorem makeDirs_of_ok {path : String} {disk : Files.Disk} (h : w.disk.makeDirs path = .ok disk) :
    (host programs).makeDirs path w = (.ok (), { w with disk }) :=
  change_of_ok (fun disk => disk.makeDirs path) h

theorem makeDirs_of_error {path : String} {e : Files.Error} (h : w.disk.makeDirs path = .error e) :
    (host programs).makeDirs path w = (.error e, w) :=
  change_of_error (fun disk => disk.makeDirs path) h

/-- A file that holds a formula is loaded as it. -/
theorem loadFile_eq {path : String} {bytes : List UInt8} {f : Formula}
    (hfile : w.disk.readFile path = .ok bytes) (hread : Dimacs.read bytes = .ok f) :
    (Files.loadFile (host programs) path).run.run w = (.ok f, w) := by
  unfold Files.loadFile
  refine (run_bind (w.disk.readFile path) rfl _).trans ?_
  rw [hfile]
  dsimp only
  rw [hread]
  rfl

end SatWalk.World
